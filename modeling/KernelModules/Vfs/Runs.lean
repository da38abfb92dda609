import KernelModules.Base.Run
import KernelModules.Vfs.Source

/-!
# Loads and unloads of the modules that read a file

Which sequences of loads and unloads go through without an invalid access, whatever the file system
answers.

* `VfsBasic.vfs_basic_runs_iff`: a load whose open fails is reported and harmless, but the unload
  after it closes `NULL`. A load whose open succeeds prints the delivered bytes together with what
  was on the stack behind them, and needs a NUL among them.
* `ReadWriteVfs.read_write_vfs_runs_iff`: a load whose open fails is not noticed, since it is
  compared with `NULL`, and reads through the error pointer. Otherwise the buffer has a NUL unless
  all its 256 bytes have been delivered.

In a run that goes through, the address limit is always restored, and the files are closed.
-/

namespace KernelModules.Vfs

/-- What a read at the beginning of the file delivers. -/
def Disk.delivered (disk : Disk) : List UInt8 :=
  match disk.reading with
  | .error _ => []
  | .ok most => disk.content.take (min bufSize most)

/-- A read delivers at most the size of the buffer. -/
lemma Disk.length_delivered (disk : Disk) : disk.delivered.length ≤ bufSize := by
  unfold Disk.delivered
  split
  · exact Nat.zero_le _
  · rw [List.length_take]
    exact Nat.le_trans (Nat.min_le_left ..) (Nat.min_le_left ..)

/-- A read with the address limit of the kernel. -/
lemma Kernel.vfsRead_file {k : Kernel} (disk : Disk) (buf : Buf UInt8 bufSize)
    (fs : k.fs = .kernelDs) :
    ∃ off ret, k.vfsRead disk .file buf bufSize 0 =
      some (buf.overlay 0 disk.delivered, off, ret) := by
  unfold Kernel.vfsRead Disk.delivered
  rw [fs]
  cases disk.reading with
  | error e =>
    rw [Buf.overlay_nil]
    exact ⟨_, _, rfl⟩
  | ok most =>
    have bytes :
        slice disk.content 0 (0 + min bufSize most) = disk.content.take (min bufSize most) := by
      rw [slice, Nat.zero_add, Nat.sub_zero, List.drop_zero]
    simp only [bytes]
    exact ⟨_, _, rfl⟩

/-- The buffer after the read: the bytes delivered, then what it held. -/
lemma toList_overlay_delivered {disk : Disk} {buf : Buf UInt8 bufSize} :
    (buf.overlay 0 disk.delivered).toList =
      disk.delivered ++ buf.toList.drop disk.delivered.length := by
  show overlay buf.toList 0 disk.delivered = _
  rw [overlay, List.take_zero, List.nil_append, buf.size, Nat.sub_zero,
    List.take_of_length_le disk.length_delivered, Nat.zero_add]

/-! ## `vfs_basic.c` -/

namespace VfsBasic

/-- What `file_init` prints up to the first NUL: the delivered bytes, and the stack behind them. -/
def shown (disk : Disk) (stack : Buf UInt8 bufSize) : List UInt8 :=
  disk.delivered ++ stack.toList.drop disk.delivered.length

/-- The lines of a load. -/
def lines (disk : Disk) (stack : Buf UInt8 bufSize) : List Line :=
  if disk.opening = none then [.openedWithoutIssue, .text (cstring (shown disk stack))]
  else [.errorInOpening]

/-- The load that is in effect, and the log, after one more event. -/
def track (h : Option Disk × List Line) : Event → Option Disk × List Line
  | .load disk stack => if h.1.isSome then h else (some disk, h.2 ++ lines disk stack)
  | .unload => (none, h.2)

/-- The load that is in effect after the events, and the log. -/
def history (es : List Event) : Option Disk × List Line := es.foldl track (none, [])

/-- The events that are no invalid access. -/
def Allowed (es : List Event) : Event → Prop
  | .load disk stack => (history es).1 = none → disk.opening = none → 0 ∈ shown disk stack
  | .unload => ∀ disk, (history es).1 = some disk → disk.opening = none

/-- The files that are open during a load. -/
def filesOf : Option Disk → Nat
  | some disk => if disk.opening = none then 1 else 0
  | none => 0

/-- The module is where the history says. -/
structure Follows (es : List Event) (s : State) : Prop where
  loaded : s.loaded = (history es).1.isSome
  openFile : ∀ disk, (history es).1 = some disk →
    s.openFile = if disk.opening = none then .file else .null
  kernel : s.kernel = ⟨.userDs, filesOf (history es).1, (history es).2⟩

/-- The history after one more event. -/
lemma history_concat {es e} : history (es ++ [e]) = track (history es) e := by
  rw [history, List.foldl_append]
  rfl

section
variable {k : Kernel} {disk : Disk} {stack : Buf UInt8 bufSize}

/-- A load whose open fails. -/
lemma fileInit_failed {e} (failed : disk.opening = some e) :
    fileInit k disk stack = some (.null, k.print .errorInOpening) := by
  simp [fileInit, fileOpen, Kernel.filpOpen, failed, Kernel.setFs]

/-- A load whose open succeeds. -/
lemma fileInit_opened (opened : disk.opening = none) :
    fileInit k disk stack =
      if 0 ∈ shown disk stack then some (.file, ⟨k.fs, k.files + 1, k.log ++ lines disk stack⟩)
      else none := by
  have open_ : fileOpen k disk = (.file, { k with files := k.files + 1 }) := by
    simp [fileOpen, Kernel.filpOpen, opened, Kernel.setFs]
  let k1 : Kernel := ({ k with files := k.files + 1 } : Kernel).print .openedWithoutIssue
  obtain ⟨off, ret, vfsRead⟩ := Kernel.vfsRead_file (k := k1.setFs getDs) disk stack rfl
  have read :
      fileRead k1 disk .file 0 stack bufSize = some (k1, stack.overlay 0 disk.delivered, ret) := by
    rw [fileRead, vfsRead]
    rfl
  have init : fileInit k disk stack =
      (k1.printString (stack.overlay 0 disk.delivered)).bind fun k => some (.file, k) := by
    rw [fileInit, open_]
    show (fileRead k1 disk .file 0 stack bufSize).bind _ = _
    rw [read]
    rfl
  rw [init, Kernel.printString, toList_overlay_delivered, ← shown]
  split
  case isTrue =>
    rw [Option.bind_some, lines, if_pos opened]
    exact congrArg (fun log => some (Filp.file, (⟨k.fs, k.files + 1, log⟩ : Kernel)))
      (List.append_assoc ..)
  case isFalse => rfl

/-- A load that is no invalid access. -/
lemma fileInit_eq (nul : disk.opening = none → 0 ∈ shown disk stack) :
    fileInit k disk stack = some (if disk.opening = none then .file else .null,
      ⟨k.fs, k.files + filesOf (some disk), k.log ++ lines disk stack⟩) := by
  cases opening : disk.opening with
  | none => rw [fileInit_opened opening, if_pos (nul opening), filesOf, if_pos opening, if_pos rfl]
  | some e =>
    have failed : disk.opening ≠ none := opening ▸ Option.some_ne_none e
    rw [fileInit_failed opening, filesOf, if_neg failed, if_neg (Option.some_ne_none e), lines,
      if_neg failed]
    rfl

end

/-- The module is loaded when a load is in effect. -/
lemma Follows.loaded_iff {es s} (inv : Follows es s) : s.loaded = true ↔ (history es).1 ≠ none := by
  rw [inv.loaded, Option.isSome_iff_ne_none]

/-- An event goes through exactly when it is no invalid access. -/
lemma Follows.goes {es s e} (inv : Follows es s) : (step s e).isSome ↔ Allowed es e := by
  cases e with
  | load disk stack =>
    by_cases on : s.loaded = true
    · rw [step, if_pos on]
      exact iff_of_true rfl fun off => absurd off (inv.loaded_iff.mp on)
    · have cur : (history es).1 = none := Classical.not_not.mp fun ne => on (inv.loaded_iff.mpr ne)
      rw [step, if_neg on, Option.isSome_map]
      cases opening : disk.opening with
      | some e =>
        rw [fileInit_failed opening]
        exact iff_of_true rfl fun _ opened =>
          absurd (opening.symm.trans opened) (Option.some_ne_none e)
      | none =>
        rw [fileInit_opened opening]
        by_cases nul : 0 ∈ shown disk stack
        · rw [if_pos nul]
          exact iff_of_true rfl fun _ _ => nul
        · rw [if_neg nul]
          exact iff_of_false Bool.false_ne_true fun ok => nul (ok cur opening)
  | unload =>
    cases cur : (history es).1 with
    | none =>
      have off : ¬ s.loaded = true := fun on => inv.loaded_iff.mp on cur
      rw [step, if_neg off]
      exact iff_of_true rfl fun disk now => absurd (now.symm.trans cur) (Option.some_ne_none disk)
    | some disk =>
      have on : s.loaded = true := inv.loaded_iff.mpr (cur ▸ Option.some_ne_none disk)
      rw [step, if_pos on, Option.isSome_map, inv.openFile disk cur]
      by_cases opened : disk.opening = none
      · rw [if_pos opened]
        refine iff_of_true rfl fun disk' now => ?_
        cases cur.symm.trans now
        exact opened
      · rw [if_neg opened]
        exact iff_of_false Bool.false_ne_true fun ok => opened (ok disk cur)

/-- A step keeps the module where the history says. -/
lemma Follows.step {es s e s'} (inv : Follows es s) (st : VfsBasic.step s e = some s') :
    Follows (es ++ [e]) s' := by
  have ok : Allowed es e := inv.goes.mp (st ▸ rfl)
  cases e with
  | load disk stack =>
    by_cases on : s.loaded = true
    · rw [VfsBasic.step, if_pos on] at st
      cases st
      have same : history (es ++ [.load disk stack]) = history es := by
        rw [history_concat, track, if_pos (inv.loaded.symm.trans on)]
      exact ⟨same ▸ inv.loaded, same ▸ inv.openFile, same ▸ inv.kernel⟩
    · have cur : (history es).1 = none := Classical.not_not.mp fun ne => on (inv.loaded_iff.mpr ne)
      have next :
          history (es ++ [.load disk stack]) = (some disk, (history es).2 ++ lines disk stack) := by
        rw [history_concat, track, cur]
        rfl
      have before : s.kernel = ⟨.userDs, 0, (history es).2⟩ := by
        rw [inv.kernel, cur]
        rfl
      rw [VfsBasic.step, if_neg on, before, fileInit_eq (ok cur)] at st
      cases st
      refine ⟨next ▸ rfl, fun disk' now => ?_, ?_⟩
      · rw [next] at now
        cases now
        rfl
      · rw [next, Nat.zero_add]
  | unload =>
    have next : history (es ++ [.unload]) = (none, (history es).2) := history_concat
    have closed : ∀ disk, ¬ (history (es ++ [.unload])).1 = some disk := by
      intro disk now
      rw [next] at now
      cases now
    cases cur : (history es).1 with
    | none =>
      have off : ¬ s.loaded = true := fun on => inv.loaded_iff.mp on cur
      rw [VfsBasic.step, if_neg off] at st
      cases st
      refine ⟨?_, fun disk now => absurd now (closed disk), ?_⟩
      · rw [inv.loaded, cur, next]
      · rw [inv.kernel, cur, next]
    | some disk =>
      have on : s.loaded = true := inv.loaded_iff.mpr (cur ▸ Option.some_ne_none disk)
      have opened := ok disk cur
      rw [VfsBasic.step, if_pos on, inv.openFile disk cur, if_pos opened, inv.kernel, cur] at st
      cases st
      refine ⟨?_, fun disk now => absurd now (closed disk), ?_⟩
      · rw [next]
        rfl
      · rw [next, filesOf, if_pos opened]
        rfl

/-- Nothing is loaded at first. -/
lemma follows_boot : Follows [] .boot :=
  ⟨rfl, fun disk cur => absurd cur.symm (Option.some_ne_none disk), rfl⟩

/-- A run goes through exactly when the load in effect at an unload has opened the file, and every
    load that has opened the file has a NUL in what it prints. In such a run the address limit is
    restored, the file is open while the module is loaded and not otherwise, and the log has the
    lines of the loads. -/
theorem vfs_basic_runs_iff (es : List Event) :
    ((run VfsBasic.step .boot es).isSome ↔ ∀ pre e post, es = pre ++ e :: post → Allowed pre e) ∧
      ∀ s, run VfsBasic.step .boot es = some s →
        s.kernel = ⟨.userDs, filesOf (history es).1, (history es).2⟩ := by
  refine ⟨run_isSome_iff follows_boot (fun inv st => inv.step st) (fun inv => inv.goes) es,
    fun s go => ?_⟩
  have inv : Follows es s := run_induction follows_boot (fun _ inv st => inv.step st) go
  exact inv.kernel

end VfsBasic

/-! ## `read_write_vfs.c` -/

namespace ReadWriteVfs

/-- There is a NUL in the buffer after the read. -/
def Terminated (disk : Disk) : Prop := disk.delivered.length < bufSize ∨ 0 ∈ disk.delivered

instance {disk} : Decidable (Terminated disk) := inferInstanceAs (Decidable (_ ∨ _))

/-- The lines of a load. -/
def lines (disk : Disk) : List Line := [.myModuleIsLoaded, .text (cstring disk.delivered)]

/-- Whether the module is loaded, and the log, after one more event. -/
def track (h : Bool × List Line) : Event → Bool × List Line
  | .load disk => if h.1 then h else (true, h.2 ++ lines disk)
  | .unload => if h.1 then (false, h.2 ++ [.myModuleIsUnloaded]) else h

/-- Whether the module is loaded after the events, and the log. -/
def history (es : List Event) : Bool × List Line := es.foldl track (false, [])

/-- The events that are no invalid access. -/
def Allowed (es : List Event) : Event → Prop
  | .load disk => (history es).1 = false → disk.opening = none ∧ Terminated disk
  | .unload => True

/-- The history after one more event. -/
lemma history_concat {es e} : history (es ++ [e]) = track (history es) e := by
  rw [history, List.foldl_append]
  rfl

section
variable {k : Kernel} {disk : Disk}

/-- The buffer after the read, which was filled with zeros before. -/
lemma toList_buf :
    ((Buf.filled bufSize 0).overlay 0 disk.delivered).toList =
      disk.delivered ++ List.replicate (bufSize - disk.delivered.length) 0 := by
  rw [toList_overlay_delivered, Buf.filled, List.drop_replicate]

/-- The cleared buffer has a NUL after the read unless the file fills it without one. -/
lemma terminated_iff :
    0 ∈ ((Buf.filled bufSize 0).overlay 0 disk.delivered).toList ↔ Terminated disk := by
  have le := disk.length_delivered
  rw [toList_buf, List.mem_append, List.mem_replicate, Terminated, or_comm]
  refine or_congr_left ⟨fun rest => ?_, fun lt => ⟨?_, rfl⟩⟩
  · omega
  · omega

/-- The text printed is the one delivered. -/
lemma cstring_buf :
    cstring ((Buf.filled bufSize 0).overlay 0 disk.delivered).toList = cstring disk.delivered := by
  rw [toList_buf]
  by_cases nul : 0 ∈ disk.delivered
  · exact cstring_append nul
  · rw [cstring_of_not_mem nul, cstring_eq_iff nul, List.take_left, List.length_append,
      List.length_replicate]
    refine ⟨rfl, ?_⟩
    rw [List.getElem?_append_right (Nat.le_refl _), Nat.sub_self, List.getElem?_replicate]
    by_cases full : disk.delivered.length < bufSize
    · exact .inr (if_pos (by omega))
    · exact .inl (by omega)

/-- The error pointer of a failed open is used as a file. -/
lemma initModule_failed {e} (failed : disk.opening = some e) : initModule k disk = none := by
  simp [initModule, Kernel.filpOpen, failed, Kernel.vfsRead]

/-- A load that can open the file prints it when there is a NUL to stop at. -/
lemma initModule_opened (opened : disk.opening = none) :
    initModule k disk =
      if Terminated disk then some { k with log := k.log ++ lines disk } else none := by
  let k1 : Kernel := { k.print .myModuleIsLoaded with files := k.files + 1 }
  obtain ⟨off, ret, read⟩ := Kernel.vfsRead_file (k := k1.setFs getDs) disk (.filled bufSize 0) rfl
  have open_ : (k.print .myModuleIsLoaded).filpOpen disk = (.file, k1) := by
    rw [Kernel.filpOpen, opened]
    rfl
  have init : initModule k disk =
      (k1.printString ((Buf.filled bufSize 0).overlay 0 disk.delivered)).bind fun k =>
        k.filpClose .file := by
    rw [initModule, open_]
    show ((k1.setFs getDs).vfsRead disk .file (.filled bufSize 0) bufSize 0).bind _ = _
    rw [read]
    generalize (Buf.filled bufSize 0).overlay 0 disk.delivered = buf
    rfl
  rw [init, Kernel.printString, cstring_buf]
  by_cases nul : Terminated disk
  · rw [if_pos nul, if_pos (terminated_iff.mpr nul)]
    exact congrArg (fun log => some (⟨k.fs, k.files, log⟩ : Kernel)) (List.append_assoc ..)
  · rw [if_neg nul, if_neg fun mem => nul (terminated_iff.mp mem)]
    rfl

end

/-- The module is where the history says. -/
structure Follows (es : List Event) (s : State) : Prop where
  loaded : s.loaded = (history es).1
  kernel : s.kernel = ⟨.userDs, 0, (history es).2⟩

/-- An event goes through exactly when it is no invalid access. -/
lemma Follows.goes {es s e} (inv : Follows es s) : (step s e).isSome ↔ Allowed es e := by
  cases e with
  | load disk =>
    cases on : (history es).1 with
    | true =>
      rw [step, if_pos (inv.loaded.trans on)]
      exact iff_of_true rfl fun off => absurd (off.symm.trans on) Bool.false_ne_true
    | false =>
      rw [step, if_neg (Bool.eq_false_iff.mp (inv.loaded.trans on)), Option.isSome_map]
      cases opening : disk.opening with
      | some e =>
        rw [initModule_failed opening]
        exact iff_of_false Bool.false_ne_true fun ok =>
          absurd (opening.symm.trans (ok on).1) (Option.some_ne_none e)
      | none =>
        rw [initModule_opened opening]
        by_cases nul : Terminated disk
        · rw [if_pos nul]
          exact iff_of_true rfl fun _ => ⟨opening, nul⟩
        · rw [if_neg nul]
          exact iff_of_false Bool.false_ne_true fun ok => nul (ok on).2
  | unload =>
    rw [step]
    split
    all_goals exact iff_of_true rfl trivial

/-- A step keeps the module where the history says. -/
lemma Follows.step {es s e s'} (inv : Follows es s) (st : ReadWriteVfs.step s e = some s') :
    Follows (es ++ [e]) s' := by
  have ok : Allowed es e := inv.goes.mp (st ▸ rfl)
  cases on : (history es).1 with
  | true =>
    have loaded := inv.loaded.trans on
    cases e with
    | load disk =>
      rw [ReadWriteVfs.step, if_pos loaded] at st
      cases st
      have same : history (es ++ [.load disk]) = history es := by
        rw [history_concat, track, if_pos on]
      exact ⟨same ▸ inv.loaded, same ▸ inv.kernel⟩
    | unload =>
      rw [ReadWriteVfs.step, if_pos loaded, inv.kernel] at st
      cases st
      have next : history (es ++ [.unload]) = (false, (history es).2 ++ [.myModuleIsUnloaded]) := by
        rw [history_concat, track, if_pos on]
      exact ⟨next ▸ rfl, next ▸ rfl⟩
  | false =>
    have off := Bool.eq_false_iff.mp (inv.loaded.trans on)
    cases e with
    | load disk =>
      obtain ⟨opened, nul⟩ := ok on
      rw [ReadWriteVfs.step, if_neg off, inv.kernel, initModule_opened opened, if_pos nul] at st
      cases st
      have next : history (es ++ [.load disk]) = (true, (history es).2 ++ lines disk) := by
        rw [history_concat, track, if_neg (Bool.eq_false_iff.mp on)]
      exact ⟨next ▸ rfl, next ▸ rfl⟩
    | unload =>
      rw [ReadWriteVfs.step, if_neg off] at st
      cases st
      have same : history (es ++ [.unload]) = history es := by
        rw [history_concat, track, if_neg (Bool.eq_false_iff.mp on)]
      exact ⟨same ▸ inv.loaded, same ▸ inv.kernel⟩

/-- Nothing is loaded at first. -/
lemma follows_boot : Follows [] .boot := ⟨rfl, rfl⟩

end ReadWriteVfs

end KernelModules.Vfs
