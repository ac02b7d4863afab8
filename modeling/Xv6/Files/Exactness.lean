import Xv6.Files.References

/-! Every system call keeps the file table exact. A call that fails leaves the descriptors, the
references and the set of pipes as they were.
-/

namespace Xv6.Files

open Function Library
open Pipes (Pipe Byte)

variable {W : Type} {k : World W} {s s' : State W} {p np : Proc} {fd : Fd} {f g : Slot}
variable {α : Type} {pi : Nat} {f0 f1 : Slot} {w w' : Finset Nat}

/-- The pages that are held are those of the pipes. -/
def Held (k : World W) (s : State W) : Prop :=
  k.held s.world = { pi | (s.tables.pipes pi).isSome = true }

/-- What holds between system calls. -/
structure Sound (k : World W) (s : State W) : Prop where
  exact : Exact s.tables
  held : Held k s

/-- A panic of the rest of the kernel. -/
def Harmless : Panic → Prop
  | .other _ => True
  | .filedup | .fileclose | .fileread | .filewrite | .freed => False

/-- The code meets `Q` from `s`; only the rest of the kernel can panic. -/
abbrev Spec {α : Type} (code : Sys W α) (s : State W) (Q : α → State W → Prop) : Prop :=
  Meets Q Harmless (code s)

theorem getTables_run (s : State W) : getTables s = .ok (s.tables, s) :=
  rfl

theorem modifyTables_run (change : Tables → Tables) (s : State W)
    : modifyTables change s = .ok ((), { s with tables := change s.tables }) :=
  rfl

/-- Reading the tables. -/
theorem spec_get {next : Tables → Sys W α} {Q : α → State W → Prop}
    (rest : Spec (next s.tables) s Q)
    : Spec (getTables >>= next) s Q := by
  exact rest

/-- Changing the tables. -/
theorem spec_modify {change : Tables → Tables} {next : Unit → Sys W α} {Q : α → State W → Prop}
    (rest : Spec (next ()) { s with tables := change s.tables } Q)
    : Spec (modifyTables change >>= next) s Q := by
  exact rest

-- The rest of the kernel

/-- The tables and the pages of the pipes stay. -/
structure Same (k : World W) (s s' : State W) : Prop where
  tables : s'.tables = s.tables
  held : k.held s'.world = k.held s.world

theorem Same.refl (k : World W) (s : State W) : Same k s s := ⟨rfl, rfl⟩

theorem Same.trans {s₁ s₂ s₃ : State W} (first : Same k s₁ s₂) (second : Same k s₂ s₃)
    : Same k s₁ s₃ :=
  ⟨second.tables.trans first.tables, second.held.trans first.held⟩

/-- Soundness depends on the tables and the pages that are held. -/
theorem Sound.same (sound : Sound k s) (same : Same k s s') : Sound k s' where
  exact := by
    rw [same.tables]
    exact sound.exact
  held := by
    rw [Held, same.held, same.tables]
    exact sound.held

/-- Code that only uses the rest of the kernel. -/
def Outside {α : Type} (k : World W) (code : Sys W α) : Prop :=
  ∀ s, Spec code s fun _ s' => Same k s s'

/-- A call of the rest of the kernel leaves the tables and, unless it allocates, the pages. -/
theorem call_spec {op : Op α} (other : op.allocates = false)
    : Spec (call k op) s fun a s' => Same k s s' ∧ k.run op s.world = .ok (a, s'.world) := by
  unfold Spec call
  cases run : k.run op s.world with
  | error message => trivial
  | ok result => exact ⟨⟨rfl, k.kept other run⟩, rfl⟩

theorem outside_call {op : Op α} (other : op.allocates = false)
    : Outside k (call k op) :=
  fun _ => (call_spec other).mono fun _ _ done => done.1

theorem outside_pure (a : α) : Outside k (pure a : Sys W α) := fun s => .refl k s

/-- Code that leaves tables and pages, one part after the other. -/
theorem Outside.bind {β : Type} {code : Sys W α} {next : α → Sys W β} (first : Outside k code)
    (rest : ∀ a, Outside k (next a))
    : Outside k (code >>= next) :=
  fun s => (first s).bind fun a s₁ same => (rest a s₁).mono fun _ _ more => same.trans more

theorem outside_get {next : Tables → Sys W α} (rest : ∀ t, Outside k (next t))
    : Outside k (getTables >>= next) :=
  fun s => spec_get (rest s.tables s)

/-- After such code the state is as before for what follows. -/
theorem Outside.then {β : Type} {code : Sys W α} {next : α → Sys W β} {Q : β → State W → Prop}
    (first : Outside k code) (rest : ∀ a s', Same k s s' → Spec (next a) s' Q)
    : Spec (code >>= next) s Q :=
  (first s).bind rest

/-- Code that is made of calls of the rest of the kernel. -/
inductive OnlyCalls (k : World W) : {α : Type} → Sys W α → Prop
  | pure {α : Type} (a : α) : OnlyCalls k (pure a)
  | call {α : Type} {op : Op α} (other : op.allocates = false) : OnlyCalls k (call k op)
  | bind {α β : Type} {code : Sys W α} {next : α → Sys W β} (first : OnlyCalls k code)
    (rest : ∀ a, OnlyCalls k (next a))
    : OnlyCalls k (code >>= next)

theorem OnlyCalls.outside {code : Sys W α} (calls : OnlyCalls k code) : Outside k code := by
  induction calls with
  | pure a => exact outside_pure a
  | call other => exact outside_call other
  | bind _ _ first rest => exact first.bind rest

theorem OnlyCalls.option {β : Type} {code : Sys W (Option β)} {next : Option β → Sys W α}
    (first : OnlyCalls k code) (absent : OnlyCalls k (next none))
    (present : ∀ b, OnlyCalls k (next (some b)))
    : OnlyCalls k (code >>= next) := by
  refine first.bind fun found => ?_
  cases found with
  | none => exact absent
  | some b => exact present b

theorem onlyCalls_putAndEnd (ip : Nat) : OnlyCalls k (putAndEnd k ip) :=
  (OnlyCalls.call rfl).bind fun _ => .call rfl

/-- The loop over symbolic links, by induction on the links that are left. -/
theorem onlyCalls_followLinks (p : Proc) (omode : BitVec 32) (left : Nat) (path : Path)
    : OnlyCalls k (followLinks k p omode left path) := by
  have fails (ip : Nat) : OnlyCalls k (do putAndEnd k ip; return none : Sys W (Option Nat)) :=
    (onlyCalls_putAndEnd ip).bind fun _ => .pure _
  induction left using Nat.strong_induction_on generalizing path with
  | _ left ih =>
    unfold followLinks
    refine (OnlyCalls.call rfl).option ((OnlyCalls.call rfl).bind fun _ => .pure _) fun ip => ?_
    refine (OnlyCalls.call rfl).bind fun _ => (OnlyCalls.call rfl).bind fun type => ?_
    split_ifs
    · exact fails ip
    · exact .pure _
    · cases left with
      | zero => exact fails ip
      | succ left =>
        refine (OnlyCalls.call rfl).bind fun target => ?_
        dsimp only
        split_ifs
        · exact fails ip
        · exact (OnlyCalls.call rfl).bind fun _ => ih left (Nat.lt_succ_self left) _

/-- `sys_open` up to the inode only calls the file system. -/
theorem onlyCalls_openInode (p : Proc) (path : Path) (omode : BitVec 32)
    : OnlyCalls k (openInode k p path omode) := by
  unfold openInode
  split_ifs
  · exact (OnlyCalls.call rfl).option ((OnlyCalls.call rfl).bind fun _ => .pure _) fun _ => .pure _
  · refine (onlyCalls_followLinks p omode _ path).option (.pure _) fun ip => ?_
    refine (OnlyCalls.call rfl).bind fun type => ?_
    split_ifs
    · exact (onlyCalls_putAndEnd ip).bind fun _ => .pure _
    · exact .pure _

/-- So does the copying of two descriptors to the user. -/
theorem onlyCalls_copyFds (p : Proc) (fdarray : BitVec 64) (fd0 fd1 : Fd)
    : OnlyCalls k (copyFds k p fdarray fd0 fd1) := by
  refine (OnlyCalls.call rfl).bind fun copied => ?_
  cases copied with
  | false => exact .pure _
  | true => exact .call rfl

-- Slots and descriptors

theorem scan_some {size : Nat} {test : Fin size → Bool} {i : Fin size}
    (found : scan test = some i)
    : test i = true :=
  List.find?_some found

/-- `filealloc` takes a free slot, if there is one. -/
theorem filealloc_spec (s : State W)
    : Spec filealloc s fun found s' =>
        (found = none ∧ s' = s)
        ∨ ∃ f, found = some f ∧ (s.tables.files f).ref = 0
          ∧ s' = { s with tables := s.tables.setFile f { s.tables.files f with ref := 1 } } := by
  unfold Spec filealloc
  rw [bind_ok (getTables_run s)]
  cases found : scan fun f => decide ((s.tables.files f).ref = 0) with
  | none => exact .inl ⟨rfl, rfl⟩
  | some f =>
    exact .inr ⟨f, rfl, of_decide_eq_true (scan_some found), rfl⟩

/-- `fdalloc` enters the file at a free descriptor, or changes nothing. -/
theorem fdalloc_spec (s : State W) (p : Proc) (f : Slot)
    : Spec (fdalloc p f) s fun found s' =>
        (found = none ∧ s' = s)
        ∨ ∃ fd, found = some fd ∧ s.tables.ofile p fd = none
          ∧ s' = { s with tables := s.tables.setOfile p fd (some f) } := by
  unfold Spec fdalloc
  rw [bind_ok (getTables_run s)]
  cases found : scan fun fd => decide (s.tables.ofile p fd = none) with
  | none => exact .inl ⟨rfl, rfl⟩
  | some fd =>
    exact .inr ⟨fd, rfl, of_decide_eq_true (scan_some found), rfl⟩

/-- `argfd` only looks at the descriptors. -/
theorem argfd_run (s : State W) (p : Proc) (fd : BitVec 32)
    : ∃ found, (∀ t : State W, t.tables.ofile = s.tables.ofile → argfd p fd t = .ok (found, t))
        ∧ ∀ place f, found = some (place, f) → s.tables.ofile p place = some f := by
  unfold argfd
  by_cases outside : fd.toInt < 0 ∨ (NOFILE : Int) ≤ fd.toInt
  · refine ⟨none, fun t _ => ?_, fun _ _ found => by cases found⟩
    rw [bind_ok (getTables_run t), if_pos outside]
    rfl
  · cases here : s.tables.ofile p (fdOf fd.toInt.toNat) with
    | none =>
      refine ⟨none, fun t same => ?_, fun _ _ found => by cases found⟩
      rw [bind_ok (getTables_run t), if_neg outside, same, here]
      rfl
    | some f =>
      refine ⟨some (fdOf fd.toInt.toNat, f), fun t same => ?_, fun place g found => ?_⟩
      · rw [bind_ok (getTables_run t), if_neg outside, same, here]
        rfl
      · cases found
        exact here

/-- `argfd` finds the file of an open descriptor. -/
theorem argfd_spec (s : State W) (p : Proc) (fd : BitVec 32)
    : Spec (argfd p fd) s fun found s' =>
        s' = s ∧ ∀ place f, found = some (place, f) → s.tables.ofile p place = some f := by
  obtain ⟨found, run, here⟩ := argfd_run s p fd
  rw [Spec, run s rfl]
  exact ⟨rfl, here⟩

theorem argfd_then {next : Option (Fd × Slot) → Sys W α} {Q : α → State W → Prop} (p : Proc)
    (fd : BitVec 32) (absent : Spec (next none) s Q)
    (present : ∀ place f, s.tables.ofile p place = some f → Spec (next (some (place, f))) s Q)
    : Spec (argfd p fd >>= next) s Q := by
  refine (argfd_spec s p fd).bind fun found s' unchanged => ?_
  obtain ⟨rfl, here⟩ := unchanged
  cases found with
  | none => exact absent
  | some pair => exact present pair.1 pair.2 (here pair.1 pair.2 rfl)

/-- `filedup` of a file in use does not panic. -/
theorem filedup_run (used : 0 < (s.tables.files f).ref)
    : filedup f s = .ok ((), { s with
        tables := s.tables.setFile f
          { s.tables.files f with ref := (s.tables.files f).ref + 1 } }) := by
  unfold filedup
  rw [bind_ok (getTables_run s), if_neg (by omega)]
  rfl

/-- `pipeclose` of an allocated pipe frees its page when the other end is closed, too. -/
theorem pipeclose_spec (held : Held k s) {pipe : Pipe} (here : s.tables.pipes pi = some pipe)
    (writes : Bool)
    : Spec (pipeclose k pi writes) s fun _ s' =>
        s'.tables = s.tables.closePipe pi writes ∧ Held k s' := by
  have closes : s.tables.closePipe pi writes = s.tables.setPipe pi (closeEnd pipe writes) := by
    rw [Tables.closePipe, here]
  unfold Spec pipeclose
  rw [bind_ok (getTables_run s), here, closes]
  unfold closeEnd
  dsimp only
  generalize (if writes = true then { pipe with writeopen := false }
    else { pipe with readopen := false }) = pipe'
  split_ifs with last
  · rw [bind_ok (modifyTables_run _ s)]
    unfold call
    cases run : k.run (.kfree pi) s.world with
    | error message => trivial
    | ok result =>
      refine ⟨rfl, ?_⟩
      have mine : pi ∈ k.held s.world := by
        rw [held, Set.mem_ofPred_eq, here]
        rfl
      change k.held result.2 = { other | (update s.tables.pipes pi none other).isSome }
      rw [k.kfree mine run, held]
      ext other
      by_cases same : other = pi
      · simp [same]
      · simp [same]
  · refine ⟨rfl, ?_⟩
    change k.held s.world = { other | (update s.tables.pipes pi (some _) other).isSome }
    rw [held]
    ext other
    by_cases same : other = pi
    · simp [same, here]
    · simp [update_of_ne same]

/-- `fileclose` of a file in use. -/
theorem fileclose_spec (held : Held k s) (used : 0 < (s.tables.files f).ref)
    (pipe : (s.tables.files f).type = .pipe
      → (s.tables.pipes (s.tables.files f).pipe).isSome = true)
    : Spec (fileclose k f) s fun _ s' => s'.tables = s.tables.release f ∧ Held k s' := by
  unfold Spec fileclose Tables.release
  rw [bind_ok (getTables_run s)]
  have live : ¬(s.tables.files f).ref < 1 := by omega
  split_ifs with shared
  · exact ⟨rfl, held⟩
  · have cleared : Held k { s with
        tables := s.tables.setFile f { s.tables.files f with ref := 0, type := .none } } := held
    -- the inode of a file that is not a pipe is put
    have puts : Spec (do call k .beginOp; call k (.iput (s.tables.files f).ip); call k .endOp)
        { s with tables := s.tables.setFile f { s.tables.files f with ref := 0, type := .none } }
        fun _ s' => s'.tables = s.tables.setFile f
            { s.tables.files f with ref := 0, type := .none } ∧ Held k s' := by
      have outside : Outside k
          (do call k .beginOp; call k (.iput (s.tables.files f).ip); call k .endOp) :=
        (outside_call rfl).bind fun _ => (outside_call rfl).bind fun _ => outside_call rfl
      refine (outside _).mono fun _ s' same => ⟨same.tables, ?_⟩
      rw [Held, same.held, same.tables]
      exact held
    cases isType : (s.tables.files f).type with
    | none => exact ⟨rfl, held⟩
    | inode | device => exact puts
    | pipe =>
      obtain ⟨open_, here⟩ := Option.isSome_iff_exists.mp (pipe isType)
      exact pipeclose_spec cleared here _

/-- Closing a file that was just allocated only frees its slot. -/
theorem fileclose_new (ref : (s.tables.files f).ref = 1) (type : (s.tables.files f).type = .none)
    : fileclose k f s = .ok ((), { s with
        tables := s.tables.setFile f { s.tables.files f with ref := 0, type := .none } }) := by
  unfold fileclose
  rw [bind_ok (getTables_run s)]
  rw [ref, type]
  rfl

-- sys_open

/-- A call that fails leaves the tables alike. -/
structure Failed (k : World W) (s s' : State W) : Prop where
  alike : Alike s.tables s'.tables
  held : k.held s'.world = k.held s.world

theorem Failed.of_same (same : Same k s s') : Failed k s s' where
  alike := by
    rw [same.tables]
    exact .refl _
  held := same.held

/-- A failed call leaves a sound state. -/
theorem Sound.failed (sound : Sound k s) (failed : Failed k s s') : Sound k s' where
  exact := sound.exact.alike failed.alike
  held := by
    rw [Held, failed.held, failed.alike.pipes]
    exact sound.held

variable {t : Tables}

/-- What stands in a free slot does not matter. -/
theorem alike_setFile {file : File} (unused : (t.files f).Stale) (stale : file.Stale)
    : Alike t (t.setFile f file) := by
  refine ⟨fun g => ?_, rfl, rfl, rfl, rfl, rfl⟩
  by_cases same : g = f
  · subst same
    rw [setFile_self]
    exact .inr ⟨unused, stale⟩
  · exact .inl (setFile_other t file same)

theorem setFile_setFile (t : Tables) (f : Slot) (file file' : File)
    : (t.setFile f file).setFile f file' = t.setFile f file' := by
  unfold Tables.setFile
  rw [update_idem]

/-- A slot that was taken and given back leaves the tables alike. -/
theorem fileclose_taken (stale : (s.tables.files f).Stale)
    : ∃ t', fileclose k f
          { s with tables := s.tables.setFile f { s.tables.files f with ref := 1 } }
          = .ok ((), { s with tables := t' })
        ∧ Alike s.tables t' := by
  refine ⟨_, fileclose_new (by simp) (by simp [stale.2]), ?_⟩
  rw [setFile_setFile]
  exact alike_setFile stale ⟨rfl, rfl⟩

/-- The new file of an `open`. -/
def Opens (t : Tables) (p : Proc) (r : Int) (t' : Tables) : Prop :=
  ∃ fd f file, r = (fd.val : Int) ∧ t.ofile p fd = none ∧ (t.files f).ref = 0 ∧ file.ref = 1
    ∧ (file.type = .inode ∨ file.type = .device) ∧ file.off = 0 ∧ t' = t.place p fd f file

theorem opened_spec (file : File) (type major : BitVec 16) (ip : Nat) (omode : BitVec 32)
    : (file.opened type major ip omode).ref = file.ref
      ∧ ((file.opened type major ip omode).type = .inode
        ∨ (file.opened type major ip omode).type = .device)
      ∧ (file.opened type major ip omode).off = 0 := by
  unfold File.opened
  split_ifs <;> simp

/-- The failing exits of `sys_open` after the inode was found. -/
theorem putAndFail_spec (ip : Nat) {first : State W} (failed : Failed k first s)
    {Q : Int → State W → Prop} (meets : ∀ s', Failed k first s' → Q (-1) s')
    : Spec (do putAndEnd k ip; return (-1 : Int)) s Q := by
  refine (onlyCalls_putAndEnd ip).outside.then fun _ s' same => meets s' ⟨?_, ?_⟩
  · rw [same.tables]
    exact failed.alike
  · rw [same.held]
    exact failed.held

/-- The end of `sys_open` returns the descriptor. -/
theorem finishOpen_spec (ip : Nat) (type : BitVec 16) (omode : BitVec 32) (fd : Fd) (s : State W)
    : Spec (finishOpen k ip type omode fd) s fun r s' => r = (fd.val : Int) ∧ Same k s s' := by
  have ends (s : State W) : Spec
      (do call k (.iunlock ip); call k .endOp; return (fd.val : Int) : Sys W Int) s
      fun r s' => r = (fd.val : Int) ∧ Same k s s' :=
    (outside_call rfl).then fun _ s₁ first => (outside_call rfl).then fun _ s₂ second =>
      ⟨rfl, first.trans second⟩
  unfold finishOpen
  split_ifs
  · exact (outside_call rfl).then fun _ s₁ first => (ends s₁).mono fun r s' ended =>
      ⟨ended.1, first.trans ended.2⟩
  · exact ends s

/-- `sys_open` from the inode on: it fails without effect, or opens one file. -/
theorem openFile_spec (exact : Exact s.tables) (ip : Nat) (omode : BitVec 32)
    : Spec (openFile k p ip omode) s fun r s' =>
        (r = -1 ∧ Failed k s s')
        ∨ (Opens s.tables p r s'.tables ∧ k.held s'.world = k.held s.world) := by
  refine (outside_call rfl).then fun _ s₁ same₁ => ?_
  refine (outside_call rfl).then fun type s₂ same₂ => ?_
  refine (outside_call rfl).then fun major s₃ same₃ => ?_
  have same : Same k s s₃ := (same₁.trans same₂).trans same₃
  have failed := Failed.of_same same
  rw [← same.tables] at exact
  split_ifs
  · exact putAndFail_spec ip failed fun s' failed => .inl ⟨rfl, failed⟩
  · refine (filealloc_spec s₃).bind fun found s₄ taken => ?_
    rcases taken with ⟨rfl, rfl⟩ | ⟨f, rfl, unused, rfl⟩
    · exact putAndFail_spec ip failed fun s' failed => .inl ⟨rfl, failed⟩
    · have stale : (s₃.tables.files f).Stale := ⟨unused, (exact.typed f).mp unused⟩
      refine (fdalloc_spec _ p f).bind fun found s₅ taken => ?_
      rcases taken with ⟨rfl, rfl⟩ | ⟨fd, rfl, free, rfl⟩
      · obtain ⟨t', closes, alike⟩ := fileclose_taken (k := k) stale
        dsimp only
        rw [bind_ok closes]
        have closed : Failed k s { s₃ with tables := t' } :=
          ⟨same.tables ▸ alike, same.held⟩
        exact putAndFail_spec ip closed fun s' failed => .inl ⟨rfl, failed⟩
      · obtain ⟨ref, isOpen, start⟩ :=
          opened_spec { s₃.tables.files f with ref := 1 } type major ip omode
        set file := File.opened { s₃.tables.files f with ref := 1 } type major ip omode with isFile
        have placed : ((s₃.tables.setFile f { s₃.tables.files f with ref := 1 }).setOfile p fd
              (some f)).setFile f
              ((((s₃.tables.setFile f { s₃.tables.files f with ref := 1 }).setOfile p fd
                (some f)).files f).opened type major ip omode)
            = s₃.tables.place p fd f file := by
          have isTaken : ((s₃.tables.setFile f { s₃.tables.files f with ref := 1 }).setOfile p fd
              (some f)).files f = { s₃.tables.files f with ref := 1 } := setFile_self ..
          rw [isTaken]
          exact setFile_setFile (s₃.tables.setOfile p fd (some f)) f _ file
        have opens : Opens s.tables p fd.val (s₃.tables.place p fd f file) := by
          rw [← same.tables]
          exact ⟨fd, f, file, rfl, free, unused, ref, isOpen, start, rfl⟩
        dsimp only
        rw [bind_ok (modifyTables_run _ _)]
        rw [placed]
        refine (finishOpen_spec ip type omode fd _).mono fun r s' ended => ?_
        obtain ⟨rfl, kept⟩ := ended
        refine .inr ⟨?_, kept.held.trans same.held⟩
        rw [kept.tables]
        exact opens

/-- `sys_open` fails without effect, or opens one file. -/
theorem sysOpen_spec (exact : Exact s.tables) (path : BitVec 64) (omode : BitVec 32)
    : Spec (sysOpen k p path omode) s fun r s' =>
        (r = -1 ∧ Failed k s s')
        ∨ (Opens s.tables p r s'.tables ∧ k.held s'.world = k.held s.world) := by
  refine (outside_call rfl).then fun found s₁ same₁ => ?_
  cases found with
  | none => exact .inl ⟨rfl, .of_same same₁⟩
  | some path =>
    refine (outside_call rfl).then fun _ s₂ same₂ => ?_
    refine (onlyCalls_openInode p path omode).outside.then fun found s₃ same₃ => ?_
    have same : Same k s s₃ := (same₁.trans same₂).trans same₃
    cases found with
    | none => exact .inl ⟨rfl, .of_same same⟩
    | some ip =>
      rw [← same.tables] at exact
      refine (openFile_spec exact ip omode).mono fun r s' result => ?_
      rw [same.tables, same.held] at result
      rcases result with ⟨isError, failed⟩ | opens
      · refine .inl ⟨isError, ?_, failed.held.trans same.held⟩
        rw [← same.tables]
        exact failed.alike
      · exact .inr opens

-- sys_pipe

/-- One file of a new pipe. -/
def Tables.newEnd (t : Tables) (f : Slot) (pi : Nat) (writes : Bool) : File :=
  File.pipeEnd { t.files f with ref := 1 } pi writes

/-- The tables with a new pipe, before it has descriptors. -/
def Tables.withPipe (t : Tables) (f0 f1 : Slot) (pi : Nat) (data : Fin 512 → Byte) : Tables :=
  ((t.setPipe pi (some (newPipe data))).setFile f0 (t.newEnd f0 pi false)).setFile f1
    (t.newEnd f1 pi true)

/-- Two free slots and a page that is not a pipe. -/
structure Fresh (t : Tables) (f0 f1 : Slot) (pi : Nat) : Prop where
  differ : f1 ≠ f0
  first : (t.files f0).Stale
  second : (t.files f1).Stale
  page : t.pipes pi = none

/-- Two free slots do not matter either. -/
theorem alike_two {t' : Tables} (first : (t.files f0).Stale) (second : (t.files f1).Stale)
    (first' : (t'.files f0).Stale) (second' : (t'.files f1).Stale)
    (others : ∀ g, g ≠ f0 → g ≠ f1 → t'.files g = t.files g) (pipes : t'.pipes = t.pipes)
    (ofile : t'.ofile = t.ofile) (life : t'.life = t.life) (transfer : t'.transfer = t.transfer)
    (initproc : t'.initproc = t.initproc)
    : Alike t t' := by
  refine ⟨fun g => ?_, pipes, ofile, life, transfer, initproc⟩
  by_cases isFirst : g = f0
  · subst isFirst
    exact .inr ⟨first, first'⟩
  · by_cases isSecond : g = f1
    · subst isSecond
      exact .inr ⟨second, second'⟩
    · exact .inl (others g isFirst isSecond)

theorem setFile_again (t : Tables) (differ : f1 ≠ f0) (pi : Nat) (pipe : Option Pipe)
    (old0 old1 new0 new1 : File)
    : ((((t.setFile f0 old0).setFile f1 old1).setPipe pi pipe).setFile f0 new0).setFile f1 new1
      = ((t.setPipe pi pipe).setFile f0 new0).setFile f1 new1 := by
  unfold Tables.setFile Tables.setPipe
  dsimp only
  rw [update_comm differ, update_idem, update_idem]

/-- `kalloc` fails, or hands out a page that nobody has. -/
theorem kalloc_spec (s : State W)
    : Spec (call k .kalloc) s fun found s' =>
        (found = none ∧ Same k s s')
        ∨ ∃ pi, found = some pi ∧ s'.tables = s.tables ∧ pi ∉ k.held s.world
          ∧ k.held s'.world = insert pi (k.held s.world) := by
  unfold Spec call
  cases run : k.run .kalloc s.world with
  | error message => trivial
  | ok result =>
    obtain ⟨found, w⟩ := result
    cases found with
    | none => exact .inl ⟨rfl, rfl, k.kalloc_none run⟩
    | some pi =>
      obtain ⟨fresh, held⟩ := k.kalloc_some run
      exact .inr ⟨pi, rfl, rfl, fresh, held⟩

/-- `pipealloc` fails without effect, or makes a pipe with two ends. -/
theorem pipealloc_spec (sound : Sound k s)
    : Spec (pipealloc k) s fun found s' =>
        (found = none ∧ Failed k s s')
        ∨ ∃ f0 f1 pi data, found = some (f0, f1) ∧ Fresh s.tables f0 f1 pi
          ∧ s'.tables = s.tables.withPipe f0 f1 pi data
          ∧ k.held s'.world = insert pi (k.held s.world) := by
  unfold pipealloc
  refine (filealloc_spec s).bind fun found s₁ taken => ?_
  rcases taken with ⟨rfl, rfl⟩ | ⟨f0, rfl, unused, rfl⟩
  · exact .inl ⟨rfl, .of_same (.refl k _)⟩
  · have first : (s.tables.files f0).Stale := ⟨unused, (sound.exact.typed f0).mp unused⟩
    dsimp only
    refine (filealloc_spec _).bind fun found s₂ taken => ?_
    rcases taken with ⟨rfl, rfl⟩ | ⟨f1, rfl, unused', rfl⟩
    · obtain ⟨t', closes, alike⟩ := fileclose_taken (k := k) first
      dsimp only
      rw [bind_ok closes]
      exact .inl ⟨rfl, alike, rfl⟩
    · have differ : f1 ≠ f0 := by
        rintro rfl
        simp at unused'
      simp only [setFile_other _ _ differ] at unused' ⊢
      have second : (s.tables.files f1).Stale := ⟨unused', (sound.exact.typed f1).mp unused'⟩
      set taken := (s.tables.setFile f0 { s.tables.files f0 with ref := 1 }).setFile f1
        { s.tables.files f1 with ref := 1 } with isTaken
      have atFirst : taken.files f0 = { s.tables.files f0 with ref := 1 } := by
        rw [isTaken, setFile_other _ _ (Ne.symm differ), setFile_self]
      have atSecond : taken.files f1 = { s.tables.files f1 with ref := 1 } := setFile_self ..
      refine (kalloc_spec _).bind fun found s₃ allocated => ?_
      rcases allocated with ⟨rfl, same⟩ | ⟨pi, rfl, same, fresh, held⟩
      · -- both slots go back
        have isTables : s₃.tables = taken := same.tables
        have ref : (s₃.tables.files f0).ref = 1 := by rw [isTables, atFirst]
        have type : (s₃.tables.files f0).type = .none := by rw [isTables, atFirst, first.2]
        dsimp only
        rw [bind_ok (fileclose_new ref type)]
        rw [bind_ok (fileclose_new (by simp [setFile_other _ _ differ, isTables, atSecond])
          (by simp [setFile_other _ _ differ, isTables, atSecond, second.2]))]
        refine .inl ⟨rfl, ?_, same.held⟩
        rw [isTables]
        refine alike_two first second ?_ ⟨by simp, by simp⟩ (fun g notFirst notSecond => ?_) rfl rfl
          rfl rfl rfl
        · simp [setFile_other _ _ (Ne.symm differ), File.Stale]
        · simp only [isTaken, setFile_other _ _ notFirst, setFile_other _ _ notSecond]
      · refine (outside_call rfl).then fun data s₄ same' => ?_
        refine spec_modify (spec_modify (spec_modify ?_))
        refine .inr ⟨f0, f1, pi, data, rfl, ⟨differ, first, second, ?_⟩, ?_,
          same'.held.trans held⟩
        · rw [sound.held] at fresh
          simpa using fresh
        · have isTables : s₄.tables = taken := same'.tables.trans same
          have inPipe : (taken.setPipe pi (some (newPipe data))).files = taken.files := rfl
          simp only [isTables, setFile_other _ _ differ, inPipe, atFirst, atSecond]
          exact setFile_again s.tables differ pi _ _ _ _ _

/-- Closing both ends of a new pipe gives back the slots and the page. -/
theorem closeBoth_spec {data : Fin 512 → Byte} {first : State W} (sound : Sound k first)
    (fresh : Fresh first.tables f0 f1 pi) (tables : s.tables = first.tables.withPipe f0 f1 pi data)
    (held : k.held s.world = insert pi (k.held first.world))
    : Spec (do fileclose k f0; fileclose k f1; return (-1 : Int)) s fun r s' =>
        r = -1 ∧ Failed k first s' := by
  have atFirst : s.tables.files f0 = first.tables.newEnd f0 pi false := by
    rw [tables, Tables.withPipe, setFile_other _ _ (Ne.symm fresh.differ), setFile_self]
  have atSecond : s.tables.files f1 = first.tables.newEnd f1 pi true := by
    rw [tables, Tables.withPipe, setFile_self]
  have atPipe : s.tables.pipes pi = some (newPipe data) := by
    rw [tables]
    exact update_self ..
  have holds : Held k s := by
    rw [Held, held, sound.held, tables]
    ext other
    change _ ↔ (update first.tables.pipes pi (some (newPipe data)) other).isSome = true
    by_cases same : other = pi
    · simp [same]
    · simp [same]
  refine (fileclose_spec holds (by rw [atFirst]; exact Nat.one_pos) fun _ => ?_).bind
    fun _ s₁ closed => ?_
  · rw [atFirst]
    change (s.tables.pipes pi).isSome = true
    rw [atPipe]
    rfl
  obtain ⟨tables₁, holds₁⟩ := closed
  rw [release_end (by rw [atFirst]; rfl) (by rw [Tables.IsEnd, atFirst]; exact ⟨rfl, rfl, rfl⟩)
    atPipe] at tables₁
  have stillSecond : s₁.tables.files f1 = first.tables.newEnd f1 pi true := by
    rw [tables₁]
    exact (setFile_other _ _ fresh.differ).trans atSecond
  have stillPipe : s₁.tables.pipes pi = some { newPipe data with readopen := false } := by
    rw [tables₁]
    exact update_self ..
  refine (fileclose_spec holds₁ (by rw [stillSecond]; exact Nat.one_pos) fun _ => ?_).bind
    fun _ s₂ closed => ?_
  · rw [stillSecond]
    change (s₁.tables.pipes pi).isSome = true
    rw [stillPipe]
    rfl
  obtain ⟨tables₂, holds₂⟩ := closed
  rw [release_end (by rw [stillSecond]; rfl)
    (by rw [Tables.IsEnd, stillSecond]; exact ⟨rfl, rfl, rfl⟩) stillPipe] at tables₂
  have backFirst : s₁.tables.files f0 = { s.tables.files f0 with ref := 0, type := .none } := by
    rw [tables₁]
    exact setFile_self ..
  have alike : Alike first.tables s₂.tables := by
    rw [tables₂]
    refine alike_two fresh.first fresh.second ?_ ?_ (fun g notFirst notSecond => ?_) ?_ ?_ ?_ ?_ ?_
    · change ((s₁.tables.setFile f1 _).files f0).Stale
      rw [setFile_other _ _ (Ne.symm fresh.differ), backFirst]
      exact ⟨rfl, rfl⟩
    · change ((s₁.tables.setFile f1 _).files f1).Stale
      rw [setFile_self]
      exact ⟨rfl, rfl⟩
    · change (s₁.tables.setFile f1 _).files g = _
      rw [setFile_other _ _ notSecond, tables₁]
      change (s.tables.setFile f0 _).files g = _
      rw [setFile_other _ _ notFirst, tables, Tables.withPipe, setFile_other _ _ notSecond,
        setFile_other _ _ notFirst]
      rfl
    · rw [tables₁]
      change update (update s.tables.pipes pi _) pi none = _
      rw [update_idem, tables]
      change update (update first.tables.pipes pi _) pi none = _
      rw [update_idem, ← fresh.page, update_eq_self]
    all_goals
      rw [Tables.setPipe, Tables.setFile, tables₁, Tables.setPipe, Tables.setFile, tables]
      rfl
  refine ⟨rfl, alike, ?_⟩
  rw [holds₂, sound.held, alike.pipes]

/-- The two descriptors of a `pipe`. -/
def MakesPipe (k : World W) (s : State W) (p : Proc) (s' : State W) : Prop :=
  ∃ f0 f1 pi data fd0 fd1, Fresh s.tables f0 f1 pi ∧ fd1 ≠ fd0 ∧ s.tables.ofile p fd0 = none
    ∧ s.tables.ofile p fd1 = none
    ∧ s'.tables = ((s.tables.withPipe f0 f1 pi data).setOfile p fd0 (some f0)).setOfile p fd1
        (some f1)
    ∧ k.held s'.world = insert pi (k.held s.world)

/-- Clearing a descriptor undoes its allocation. -/
theorem setOfile_undo (free : t.ofile p fd = none) (entry : Option Slot)
    : (t.setOfile p fd entry).setOfile p fd none = t := by
  unfold Tables.setOfile
  rw [setAt_setAt, ← free, setAt_self]

theorem setOfile_comm (t : Tables) (p : Proc) {fd' : Fd} (differ : fd ≠ fd')
    (entry entry' : Option Slot)
    : (t.setOfile p fd entry).setOfile p fd' entry'
      = (t.setOfile p fd' entry').setOfile p fd entry := by
  unfold Tables.setOfile
  rw [setAt_comm t.ofile p differ]

/-- `sys_pipe` fails without effect, at each of its exits, or makes a pipe with two descriptors. -/
theorem sysPipe_spec (sound : Sound k s) (fdarray : BitVec 64)
    : Spec (sysPipe k p fdarray) s fun r s' =>
        (r = -1 ∧ Failed k s s') ∨ (r = 0 ∧ MakesPipe k s p s') := by
  refine (pipealloc_spec sound).bind fun found s₁ made => ?_
  rcases made with ⟨rfl, failed⟩ | ⟨f0, f1, pi, data, rfl, fresh, tables, held⟩
  · exact .inl ⟨rfl, failed⟩
  · refine (fdalloc_spec s₁ p f0).bind fun found s₂ taken => ?_
    rcases taken with ⟨rfl, rfl⟩ | ⟨fd0, rfl, free0, rfl⟩
    · exact (closeBoth_spec sound fresh tables held).mono fun r s' failed => .inl failed
    · refine (fdalloc_spec _ p f1).bind fun found s₃ taken => ?_
      rcases taken with ⟨rfl, rfl⟩ | ⟨fd1, rfl, free1, rfl⟩
      · refine spec_modify ?_
        rw [setOfile_undo free0]
        exact (closeBoth_spec sound fresh tables held).mono fun r s' failed => .inl failed
      · have differ : fd1 ≠ fd0 := by
          rintro rfl
          rw [setOfile_self] at free1
          cases free1
        have free1' : s₁.tables.ofile p fd1 = none := by
          rw [← free1]
          exact (setAt_other s₁.tables.ofile (some f0) fun same => differ same.2).symm
        refine (onlyCalls_copyFds p fdarray fd0 fd1).outside.then fun copied s₄ same => ?_
        cases copied with
        | true =>
          have sameOfile : s₁.tables.ofile = s.tables.ofile := by
            rw [tables]
            rfl
          rw [sameOfile] at free0 free1'
          refine .inr ⟨rfl, f0, f1, pi, data, fd0, fd1, fresh, differ, free0, free1', ?_,
            same.held.trans held⟩
          rw [same.tables, tables]
        | false =>
          refine spec_modify (spec_modify ?_)
          have isTables : s₄.tables = (s₁.tables.setOfile p fd0 (some f0)).setOfile p fd1
              (some f1) := same.tables
          have undone : (s₄.tables.setOfile p fd0 none).setOfile p fd1 none
              = s.tables.withPipe f0 f1 pi data := by
            rw [isTables, setOfile_comm (s₁.tables.setOfile p fd0 (some f0)) p differ,
              setOfile_undo free0, setOfile_undo free1', tables]
          refine (closeBoth_spec
            (s := { s₄ with tables := (s₄.tables.setOfile p fd0 none).setOfile p fd1 none })
            sound fresh undone (same.held.trans held)).mono fun r s' failed => ?_
          exact .inl failed

/-- A new pipe keeps the tables exact. -/
theorem Sound.pipes (sound : Sound k s) (alive : s.tables.life p = .live)
    (made : MakesPipe k s p s')
    : Sound k s' := by
  obtain ⟨f0, f1, pi, data, fd0, fd1, fresh, differ, free0, free1, tables, held⟩ := made
  set half : Pipe := { newPipe data with writeopen := false } with isHalf
  have living : ¬(s.tables.life p = .unused ∨ s.tables.life p = .zombie) := by
    rw [alive]
    decide
  have noEnd (f : Slot) (writes : Bool) : ¬s.tables.IsEnd f pi writes := by
    intro isEnd
    have allocated := (sound.exact.allocated pi).mpr ⟨f, writes, isEnd⟩
    rw [fresh.page] at allocated
    cases allocated
  -- the two ends one after the other
  have first : Exact ((s.tables.place p fd0 f0 (s.tables.newEnd f0 pi false)).setPipe pi
      (some half)) := by
    refine sound.exact.place_end free0 fresh.first.1 living rfl rfl ?_ rfl ?_
    · rintro ⟨g, isEnd⟩
      exact noEnd g _ isEnd
    · refine iff_of_false Bool.false_ne_true ?_
      rintro ⟨g, isEnd⟩
      exact noEnd g _ isEnd
  set t₁ := (s.tables.place p fd0 f0 (s.tables.newEnd f0 pi false)).setPipe pi (some half)
    with isFirst
  have atPipe : t₁.pipes pi = some half := update_self ..
  have free : t₁.ofile p fd1 = none :=
    (setAt_other s.tables.ofile (some f0) fun same => differ same.2).trans free1
  have unused : (t₁.files f1).ref = 0 := by
    have kept : t₁.files f1 = s.tables.files f1 := update_of_ne fresh.differ ..
    rw [kept]
    exact fresh.second.1
  have second : Exact ((t₁.place p fd1 f1 (s.tables.newEnd f1 pi true)).setPipe pi
      (some (newPipe data))) := by
    refine first.place_end free unused living rfl rfl ?_ rfl ?_
    · exact fun isEnd => Bool.false_ne_true ((first.ends pi half true atPipe).mpr isEnd)
    · exact iff_of_true rfl ((first.ends pi half false atPipe).mp rfl)
  have isTables : s'.tables = (t₁.place p fd1 f1 (s.tables.newEnd f1 pi true)).setPipe pi
      (some (newPipe data)) := by
    rw [tables, isFirst]
    unfold Tables.withPipe Tables.place Tables.setPipe Tables.setFile Tables.setOfile
    dsimp only
    rw [update_idem]
  refine ⟨by rw [isTables]; exact second, ?_⟩
  rw [Held, held, sound.held, isTables]
  ext other
  change _ ↔ (update t₁.pipes pi (some (newPipe data)) other).isSome = true
  by_cases same : other = pi
  · simp [same]
  · have kept : t₁.pipes other = s.tables.pipes other := update_of_ne same ..
    simp [same, kept]

-- Descriptors

/-- The descriptors, the references and the set of pipes are as they were. -/
structure Undisturbed (t t' : Tables) : Prop where
  ofile : t'.ofile = t.ofile
  refs : ∀ f, (t'.files f).ref = (t.files f).ref
  pipes : ∀ pi, (t'.pipes pi).isSome = (t.pipes pi).isSome

theorem Undisturbed.refl (t : Tables) : Undisturbed t t := ⟨rfl, fun _ => rfl, fun _ => rfl⟩

theorem Undisturbed.trans {t₁ t₂ t₃ : Tables} (first : Undisturbed t₁ t₂)
    (second : Undisturbed t₂ t₃)
    : Undisturbed t₁ t₃ :=
  ⟨second.ofile.trans first.ofile, fun f => (second.refs f).trans (first.refs f),
    fun pi => (second.pipes pi).trans (first.pipes pi)⟩

/-- A failed call disturbs nobody. -/
theorem Failed.undisturbed (failed : Failed k s s') : Undisturbed s.tables s'.tables :=
  ⟨failed.alike.ofile, failed.alike.ref, fun pi => by rw [failed.alike.pipes]⟩

/-- What every system call leaves. -/
structure After (k : World W) (s : State W) (outcome : Outcome) (s' : State W) : Prop where
  sound : Sound k s'
  failed : outcome = .returned (-1) → Undisturbed s.tables s'.tables

/-- The same of a call that may be a `fork`. -/
structure Attempted (k : World W) (s : State W) (action : Action) (outcome : Outcome) (s' : State W)
    : Prop where
  sound : Sound k s'
  failed : action.Numbered k s → outcome = .returned (-1) → Undisturbed s.tables s'.tables

section

variable (sound : Sound k s)
include sound

section

variable (alive : s.tables.life p = .live)
include alive

/-- A new file with one descriptor keeps the counts exact. -/
theorem Sound.opens {r : Int} (opens : Opens s.tables p r s'.tables)
    (held : k.held s'.world = k.held s.world)
    : Sound k s' := by
  obtain ⟨fd, f, file, _, free, unused, ref, type, _, tables⟩ := opens
  have living : ¬(s.tables.life p = .unused ∨ s.tables.life p = .zombie) := by
    rw [alive]
    decide
  refine ⟨?_, ?_⟩
  · rw [tables]
    exact sound.exact.place_plain free unused living ref type
  · rw [Held, held, tables]
    exact sound.held

/-- What `sys_open` leaves. -/
theorem open_after (path : BitVec 64) (omode : BitVec 32)
    : Spec (returning (sysOpen k p path omode)) s (After k s) := by
  refine (sysOpen_spec sound.exact path omode).bind fun r s' result => ?_
  rcases result with ⟨rfl, failed⟩ | ⟨opens, held⟩
  · exact ⟨sound.failed failed, fun _ => failed.undisturbed⟩
  · refine ⟨sound.opens alive opens held, fun isError => ?_⟩
    obtain ⟨fd, _, _, rfl, _⟩ := opens
    have isNegative := Outcome.returned.inj isError
    omega

/-- What `sys_pipe` leaves. -/
theorem pipe_after (fdarray : BitVec 64)
    : Spec (returning (sysPipe k p fdarray)) s (After k s) := by
  refine (sysPipe_spec sound fdarray).bind fun r s' result => ?_
  rcases result with ⟨rfl, failed⟩ | ⟨rfl, made⟩
  · exact ⟨sound.failed failed, fun _ => failed.undisturbed⟩
  · exact ⟨sound.pipes alive made, fun isError => by cases isError⟩

/-- What `sys_dup` leaves. -/
theorem dup_after (fd : BitVec 32) : Spec (returning (sysDup p fd)) s (After k s) := by
  have same : After k s (.returned (-1)) s := ⟨sound, fun _ => .refl _⟩
  refine Meets.bind (R := fun r s' => After k s (.returned r) s') ?_ fun r s' after => after
  refine argfd_then p fd same fun place f here => ?_
  have used := sound.exact.referenced here
  refine (fdalloc_spec s p f).bind fun found s₂ taken => ?_
  rcases taken with ⟨rfl, rfl⟩ | ⟨fd', rfl, free, rfl⟩
  · exact same
  · dsimp only
    have attached : filedup f { s with tables := s.tables.setOfile p fd' (some f) }
        = .ok ((), { s with tables := s.tables.attach p fd' f }) := filedup_run used
    rw [bind_ok attached]
    refine ⟨⟨sound.exact.attach free used (by rw [alive]; decide), sound.held⟩,
      fun isError => ?_⟩
    have isNegative := Outcome.returned.inj isError
    omega

end

/-- A descriptor is cleared and its file closed. -/
theorem Sound.detach (idle : s.tables.transfer p = none) (here : s.tables.ofile p fd = some f)
    : Spec (fileclose k f) { s with tables := s.tables.setOfile p fd none } fun _ s' =>
        s'.tables = (s.tables.setOfile p fd none).release f ∧ Sound k s' := by
  have held : Held k { s with tables := s.tables.setOfile p fd none } := sound.held
  refine (fileclose_spec held (sound.exact.referenced here) fun isPipe => ?_).mono
    fun _ s' closed => ⟨closed.1, ?_, closed.2⟩
  · exact (sound.exact.allocated _).mpr ⟨f, _, isPipe, rfl, rfl⟩
  · rw [closed.1]
    exact sound.exact.detach here idle

/-- What `sys_close` leaves. -/
theorem close_after (idle : s.tables.transfer p = none) (fd : BitVec 32)
    : Spec (returning (sysClose k p fd)) s (After k s) := by
  refine Meets.bind (R := fun r s' => After k s (.returned r) s') ?_ fun r s' after => after
  refine argfd_then p fd ⟨sound, fun _ => .refl _⟩ fun place f here => ?_
  refine spec_modify ?_
  refine (sound.detach idle here).bind fun _ s' closed => ?_
  exact ⟨closed.2, fun isError => by cases isError⟩

end

-- Transfers

/-- A step that only changes contents and offsets. -/
structure Calm (k : World W) (s s' : State W) : Prop where
  sound : Sound k s'
  still : Undisturbed s.tables s'.tables
  keeps : Keeps s.tables s'.tables

theorem Sound.calm (sound : Sound k s) (same : Same k s s') : Calm k s s' where
  sound := sound.same same
  still := by
    rw [same.tables]
    exact .refl _
  keeps := by
    rw [same.tables]
    exact fun _ => ⟨rfl, rfl, rfl⟩

/-- Calm parts of a call, one after the other. -/
theorem Calm.trans {s₁ s₂ s₃ : State W} (first : Calm k s₁ s₂) (second : Calm k s₂ s₃)
    : Calm k s₁ s₃ where
  sound := second.sound
  still := first.still.trans second.still
  keeps := fun f =>
    ⟨(second.keeps f).1.trans (first.keeps f).1, (second.keeps f).2.1.trans (first.keeps f).2.1,
      (second.keeps f).2.2.trans (first.keeps f).2.2⟩

/-- Moving the offset is calm. -/
theorem advanceOff_spec (sound : Sound k s) (f : Slot) (r : BitVec 32)
    : Spec (advanceOff f r) s fun _ s' => Calm k s s' := by
  unfold Spec advanceOff
  split_ifs
  · refine ⟨⟨sound.exact.setOff _, sound.held⟩, ⟨rfl, fun g => ?_, fun _ => rfl⟩,
      keeps_setFile rfl rfl rfl⟩
    by_cases same : g = f
    · subst same
      rw [setFile_self]
    · exact congrArg File.ref (setFile_other _ _ same)
  · exact sound.calm (.refl k s)

/-- New contents of a pipe. -/
theorem Sound.setContents (sound : Sound k s) {pipe : Pipe} (pipe' : Pipe)
    (here : s.tables.pipes pi = some pipe)
    (same : ∀ writes, endOpen pipe' writes = endOpen pipe writes)
    : Calm k s { s with tables := s.tables.setPipe pi (some pipe') } := by
  have isSome (other : Nat) : ((s.tables.setPipe pi (some pipe')).pipes other).isSome
      = (s.tables.pipes other).isSome := by
    change (update s.tables.pipes pi (some pipe') other).isSome = _
    by_cases isPipe : other = pi
    · subst isPipe
      rw [update_self, here]
      rfl
    · rw [update_of_ne isPipe]
  refine ⟨⟨sound.exact.setContents here same, ?_⟩, ⟨rfl, fun _ => rfl, isSome⟩,
    fun _ => ⟨rfl, rfl, rfl⟩⟩
  simp only [Held, isSome]
  exact sound.held

/-- What a round of a transfer leaves: where it goes on, its file still serves it. -/
structure Moves (k : World W) (s : State W) (p : Proc) (r : Transfer ⊕ Int) (s' : State W)
    : Prop where
  calm : Calm k s s'
  serves : ∀ next, r = .inl next → ∃ fd f, s'.tables.ofile p fd = some f ∧ s'.tables.Serves f next

/-- A calm round may end the transfer. -/
theorem Calm.ends (calm : Calm k s s') (p : Proc) (r : Int) : Moves k s p (.inr r) s' :=
  ⟨calm, fun _ more => by cases more⟩

/-- It may also go on with the same file. -/
theorem Calm.goesOn (calm : Calm k s s') (here : s.tables.ofile p fd = some f) {next : Transfer}
    (serves : s.tables.Serves f next)
    : Moves k s p (.inl next) s' := by
  refine ⟨calm, fun next' more => ?_⟩
  cases more
  exact ⟨fd, f, by rw [calm.still.ofile]; exact here, calm.keeps.serves.mpr serves⟩

section

variable (sound : Sound k s)
include sound

/-- The pipe of an open end is allocated. -/
theorem Sound.pipe_of_end (isEnd : (s.tables.files f).type = .pipe ∧ (s.tables.files f).pipe = pi)
    : ∃ pipe, s.tables.pipes pi = some pipe :=
  Option.isSome_iff_exists.mp ((sound.exact.allocated pi).mpr ⟨f, _, isEnd.1, isEnd.2, rfl⟩)

section

variable (here : s.tables.ofile p fd = some f)
  (isEnd : (s.tables.files f).type = .pipe ∧ (s.tables.files f).pipe = pi)
include here isEnd

/-- A round of `pipewrite`. -/
theorem pipewrite_spec (addr : BitVec 64) (n : BitVec 32) (i : Nat)
    : Spec (pipewrite k p pi addr n i) s (Moves k s p) := by
  obtain ⟨pipe, atPipe⟩ := sound.pipe_of_end isEnd
  have unchanged := sound.calm (.refl k s)
  refine spec_get ?_
  rw [atPipe]
  dsimp only
  by_cases more : (i : Int) < n.toInt
  · rw [if_pos more]
    by_cases closed : pipe.readopen = false
    · rw [if_pos closed]
      exact unchanged.ends p _
    · rw [if_neg closed]
      refine (outside_call rfl).then fun killed s₁ same => ?_
      have calm := sound.calm same
      cases killed with
      | true => exact calm.ends p _
      | false =>
        by_cases full : pipe.nwrite = pipe.nread + 512
        · rw [if_pos full]
          exact calm.goesOn here isEnd
        · rw [if_neg full]
          refine (outside_call rfl).then fun byte s₂ same' => ?_
          have calm := sound.calm (same.trans same')
          cases byte with
          | none => exact calm.ends p _
          | some ch =>
            refine spec_modify ?_
            have stillPipe : s₂.tables.pipes pi = some pipe := by
              rw [(same.trans same').tables]
              exact atPipe
            have pushed := calm.sound.setContents (pipe.push ch) stillPipe
              fun writes => by cases writes <;> rfl
            exact (calm.trans pushed).goesOn here isEnd
  · rw [if_neg more]
    exact unchanged.ends p _

/-- A round of the waiting loop of `piperead`. -/
theorem piperead_spec (addr : BitVec 64) (n : BitVec 32)
    : Spec (piperead k p pi addr n) s (Moves k s p) := by
  obtain ⟨pipe, atPipe⟩ := sound.pipe_of_end isEnd
  refine spec_get ?_
  rw [atPipe]
  dsimp only
  split_ifs
  · refine (outside_call rfl).then fun killed s₁ same => ?_
    have calm := sound.calm same
    cases killed with
    | true => exact calm.ends p _
    | false => exact calm.goesOn here isEnd
  · exact (sound.calm (.refl k s)).goesOn here isEnd

/-- A round of its copying loop. -/
theorem pipecopy_spec (addr : BitVec 64) (n : BitVec 32) (i : Nat)
    : Spec (pipecopy k p pi addr n i) s (Moves k s p) := by
  obtain ⟨pipe, atPipe⟩ := sound.pipe_of_end isEnd
  have unchanged := sound.calm (.refl k s)
  refine spec_get ?_
  rw [atPipe]
  dsimp only
  by_cases more : (i : Int) < n.toInt
  · rw [if_pos more]
    by_cases empty : pipe.nread = pipe.nwrite
    · rw [if_pos empty]
      exact unchanged.ends p _
    · rw [if_neg empty]
      refine (outside_call rfl).then fun copied s₁ same => ?_
      have calm := sound.calm same
      cases copied with
      | false => exact calm.ends p _
      | true =>
        refine spec_modify ?_
        have stillPipe : s₁.tables.pipes pi = some pipe := by
          rw [same.tables]
          exact atPipe
        have taken := calm.sound.setContents { pipe with nread := pipe.nread + 1 } stillPipe
          fun writes => by cases writes <;> rfl
        exact (calm.trans taken).goesOn here isEnd
  · rw [if_neg more]
    exact unchanged.ends p _

end

/-- A round of a device. -/
theorem deviceRound_spec (here : s.tables.ofile p fd = some f)
    (type : (s.tables.files f).type = .device) (writes : Bool) (major : BitVec 16)
    (addr : BitVec 64) (off n : BitVec 32) (point : Nat)
    : Spec (deviceRound k p f writes major addr off n point) s (Moves k s p) := by
  refine (outside_call rfl).then fun result s₁ same => ?_
  have calm := sound.calm same
  cases result with
  | inl point' => exact calm.goesOn here ⟨rfl, type⟩
  | inr r =>
    refine (advanceOff_spec calm.sound f r).bind fun _ s₂ moved => ?_
    exact (calm.trans moved).ends p _

/-- A round of `filewrite` on an inode. -/
theorem inodeWriteRound_spec (here : s.tables.ofile p fd = some f)
    (type : (s.tables.files f).type = .inode) (addr : BitVec 64) (n : BitVec 32) (i : Nat)
    : Spec (inodeWriteRound k p f addr n i) s (Moves k s p) := by
  unfold inodeWriteRound
  by_cases more : (i : Int) < n.toInt
  · rw [if_pos more]
    refine (outside_call rfl).then fun _ s₁ same₁ => spec_get ?_
    refine (outside_call rfl).then fun _ s₂ same₂ => ?_
    refine (outside_call rfl).then fun r s₃ same₃ => ?_
    have before := sound.calm ((same₁.trans same₂).trans same₃)
    refine (advanceOff_spec before.sound f r).bind fun _ s₄ moved => ?_
    refine (outside_call rfl).then fun _ s₅ same₅ => ?_
    refine (outside_call rfl).then fun _ s₆ same₆ => ?_
    have calm := (before.trans moved).trans (moved.sound.calm (same₅.trans same₆))
    by_cases short : r.toInt ≠ (min (n.toInt.toNat - i) maxChunk : Nat)
    · rw [if_pos short]
      exact calm.ends p _
    · rw [if_neg short]
      exact calm.goesOn here ⟨rfl, type⟩
  · rw [if_neg more]
    exact (sound.calm (.refl k s)).ends p _

/-- A round of the transfer that a process is in. -/
theorem round_spec {transfer : Transfer} (inside : s.tables.transfer p = some transfer)
    : Spec (transfer.round k p) s (Moves k s p) := by
  obtain ⟨fd, f, here, serves⟩ := sound.exact.busy p transfer inside
  cases transfer with
  | pipewrite pi addr n i => exact pipewrite_spec sound here serves addr n i
  | piperead pi addr n => exact piperead_spec sound here serves addr n
  | pipecopy pi addr n i => exact pipecopy_spec sound here serves addr n i
  | device g writes major addr off n point =>
    obtain ⟨rfl, type⟩ := serves
    exact deviceRound_spec sound here type writes major addr off n point
  | inodeWrite g addr n i =>
    obtain ⟨rfl, type⟩ := serves
    exact inodeWriteRound_spec sound here type addr n i

section

variable (here : s.tables.ofile p fd = some f)
include here

theorem deviceStart_spec (type : (s.tables.files f).type = .device) (writes : Bool)
    (addr : BitVec 64) (n : BitVec 32)
    : Spec (deviceStart k f (s.tables.files f) writes addr n) s (Moves k s p) := by
  unfold deviceStart
  split_ifs
  · exact (sound.calm (.refl k s)).ends p _
  · refine (outside_call rfl).then fun present s₁ same => ?_
    have calm := sound.calm same
    cases present with
    | true => exact calm.goesOn here ⟨rfl, type⟩
    | false => exact calm.ends p _

/-- `fileread` finds a file in use, and does not panic. -/
theorem fileread_spec (addr : BitVec 64) (n : BitVec 32)
    : Spec (fileread k p f addr n) s (Moves k s p) := by
  have unchanged := sound.calm (.refl k s)
  have used := sound.exact.referenced here
  refine spec_get ?_
  dsimp only
  split_ifs
  · exact unchanged.ends p _
  · cases type : (s.tables.files f).type with
    | none => exact absurd type (sound.exact.open_of_ref used)
    | pipe => exact unchanged.goesOn here ⟨type, rfl⟩
    | device => exact deviceStart_spec sound here type false addr n
    | inode =>
      refine (outside_call rfl).then fun _ s₁ same₁ => ?_
      refine (outside_call rfl).then fun r s₂ same₂ => ?_
      have before := sound.calm (same₁.trans same₂)
      refine (advanceOff_spec before.sound f r).bind fun _ s₃ moved => ?_
      refine (outside_call rfl).then fun _ s₄ same₄ => ?_
      exact ((before.trans moved).trans (moved.sound.calm same₄)).ends p _

/-- `filewrite` finds a file in use, and does not panic. -/
theorem filewrite_spec (addr : BitVec 64) (n : BitVec 32)
    : Spec (filewrite k f addr n) s (Moves k s p) := by
  have unchanged := sound.calm (.refl k s)
  have used := sound.exact.referenced here
  refine spec_get ?_
  dsimp only
  split_ifs
  · exact unchanged.ends p _
  · cases type : (s.tables.files f).type with
    | none => exact absurd type (sound.exact.open_of_ref used)
    | pipe => exact unchanged.goesOn here ⟨type, rfl⟩
    | device => exact deviceStart_spec sound here type true addr n
    | inode => exact unchanged.goesOn here ⟨rfl, type⟩

end

end

/-- A transfer that is kept, or has returned. -/
theorem settle_after {code : Sys W (Transfer ⊕ Int)} (moves : Spec code s (Moves k s p))
    : Spec (settle p code) s (After k s) := by
  refine moves.bind fun r s' moved => ?_
  have still := moved.calm.still
  cases r with
  | inl next =>
    refine spec_modify ?_
    refine ⟨⟨moved.calm.sound.exact.setTransfer fun inside isNext => ?_, moved.calm.sound.held⟩,
      fun isError => by cases isError⟩
    cases isNext
    exact moved.serves next rfl
  | inr r =>
    refine spec_modify ?_
    exact ⟨⟨moved.calm.sound.exact.setTransfer fun _ none => (by cases none),
      moved.calm.sound.held⟩, fun _ => ⟨still.ofile, still.refs, still.pipes⟩⟩

/-- What `sys_read` leaves. -/
theorem read_after (sound : Sound k s) (fd : BitVec 32) (addr : BitVec 64) (n : BitVec 32)
    : Spec (settle p (sysRead k p fd addr n)) s (After k s) := by
  refine settle_after (argfd_then p fd ?_ fun place f here => ?_)
  · exact (sound.calm (.refl k s)).ends p _
  · exact fileread_spec sound here addr n

/-- What `sys_write` leaves. -/
theorem write_after (sound : Sound k s) (fd : BitVec 32) (addr : BitVec 64) (n : BitVec 32)
    : Spec (settle p (sysWrite k p fd addr n)) s (After k s) := by
  refine settle_after (argfd_then p fd ?_ fun place f here => ?_)
  · exact (sound.calm (.refl k s)).ends p _
  · exact filewrite_spec sound here addr n

theorem outside_filestat (p : Proc) (f : Slot) (addr : BitVec 64)
    : Outside k (filestat k p f addr) := by
  refine outside_get fun t => ?_
  dsimp only
  cases (t.files f).type with
  | pipe | none => exact outside_pure _
  | inode | device =>
    exact (outside_call rfl).bind fun _ => (outside_call rfl).bind fun _ =>
      (outside_call rfl).bind fun _ => outside_pure _

/-- What `sys_fstat` leaves. -/
theorem fstat_after (sound : Sound k s) (fd : BitVec 32) (addr : BitVec 64)
    : Spec (returning (sysFstat k p fd addr)) s (After k s) := by
  have outside : Outside k (sysFstat k p fd addr) := by
    refine Outside.bind (fun s => (argfd_spec s p fd).mono fun _ s' unchanged => ?_)
      fun found => ?_
    · rw [unchanged.1]
      exact .refl k s
    · cases found with
      | none => exact outside_pure _
      | some pair => exact outside_filestat p pair.2 addr
  refine outside.then fun r s' same => ?_
  have calm := sound.calm same
  exact ⟨calm.sound, fun _ => calm.still⟩

-- kfork and kexit

/-- The descriptors of a new process. -/
theorem dupFiles_spec (fds : List Fd) (distinct : fds.Nodup) (sound : Sound k s)
    (living : ¬(s.tables.life np = .unused ∨ s.tables.life np = .zombie))
    (empty : ∀ fd ∈ fds, s.tables.ofile np fd = none)
    : Spec (dupFiles p np fds) s fun _ s' => Sound k s' := by
  induction fds generalizing s with
  | nil => exact sound
  | cons fd rest ih =>
    obtain ⟨notLater, distinct⟩ := List.nodup_cons.mp distinct
    refine spec_get ?_
    cases here : s.tables.ofile p fd with
    | none =>
      exact ih distinct sound living fun fd member => empty fd (List.mem_cons_of_mem _ member)
    | some f =>
      have used := sound.exact.referenced here
      dsimp only
      unfold Spec
      rw [bind_ok (filedup_run used)]
      refine spec_modify ?_
      have attached : Sound k { s with tables := s.tables.attach np fd f } :=
        ⟨sound.exact.attach (empty fd List.mem_cons_self) used living, sound.held⟩
      refine ih distinct attached living fun fd' member => ?_
      have other : ¬(np = np ∧ fd' = fd) := by
        rintro ⟨_, rfl⟩
        exact notLater member
      exact (setAt_other s.tables.ofile (some f) other).trans
        (empty fd' (List.mem_cons_of_mem _ member))

/-- `allocproc` finds an unused slot, or changes nothing. -/
theorem allocproc_spec (s : State W)
    : Spec (allocproc k) s fun found s' =>
        (found = none ∧ Same k s s')
        ∨ ∃ np pid w, found = some (np, pid) ∧ s.tables.life np = .unused
          ∧ k.run (.allocproc np) s.world = .ok (some pid, w)
          ∧ s'.tables = s.tables.setLife np .used ∧ k.held s'.world = k.held s.world := by
  refine spec_get ?_
  cases found : scan fun np => decide (s.tables.life np = .unused) with
  | none => exact .inl ⟨rfl, .refl k s⟩
  | some np =>
    have unused : s.tables.life np = .unused := of_decide_eq_true (scan_some found)
    refine (call_spec rfl).bind fun result s₁ done => ?_
    obtain ⟨same, ran⟩ := done
    cases result with
    | none => exact .inl ⟨rfl, same⟩
    | some pid =>
      refine spec_modify ?_
      exact .inr ⟨np, pid, _, rfl, unused, ran, congrArg (·.setLife np .used) same.tables,
        same.held⟩

/-- What `fork` leaves: a failed one nothing, and a successful one a reference for each
descriptor.
-/
theorem fork_after (sound : Sound k s)
    : Spec (returning (kfork k p)) s (Attempted k s (.fork p)) := by
  refine Meets.bind (R := fun r s' => Attempted k s (.fork p) (.returned r) s') ?_
    fun r s' after => after
  refine (allocproc_spec s).bind fun found s₁ made => ?_
  rcases made with ⟨rfl, same⟩ | ⟨np, pid, _, rfl, unused, numbers, tables, held⟩
  · have calm := sound.calm same
    exact ⟨calm.sound, fun _ _ => calm.still⟩
  · have bare := sound.exact.bare np (.inl unused)
    have sound₁ : Sound k s₁ := by
      refine ⟨?_, ?_⟩
      · rw [tables]
        exact sound.exact.setLife fun _ => bare
      · rw [Held, held, tables]
        exact sound.held
    refine (outside_call rfl).then fun copied s₂ same => ?_
    have sound₂ := sound₁.same same
    have tables₂ : s₂.tables = s.tables.setLife np .used := same.tables.trans tables
    cases copied with
    | true =>
      have living : ¬(s₂.tables.life np = .unused ∨ s₂.tables.life np = .zombie) := by
        have isUsed : s₂.tables.life np = .used := by
          rw [tables₂]
          exact update_self ..
        rw [isUsed]
        decide
      have empty (fd : Fd) : s₂.tables.ofile np fd = none := by
        rw [tables₂]
        exact bare fd
      refine (dupFiles_spec (List.finRange NOFILE) (List.nodup_finRange NOFILE) sound₂ living
        fun fd _ => empty fd).bind fun _ s₃ sound₃ => ?_
      refine (outside_call rfl).then fun _ s₄ same => ?_
      have sound₄ := sound₃.same same
      refine spec_modify ?_
      refine ⟨⟨sound₄.exact.setLife fun dead => ?_, sound₄.held⟩, fun numbered isError => ?_⟩
      · rcases dead with dead | dead <;> cases dead
      · have isNegative : pid = -1 := BitVec.eq_of_toInt_eq (Outcome.returned.inj isError)
        exact absurd (isNegative ▸ numbers) (numbered np _)
    | false =>
      refine (outside_call rfl).then fun _ s₃ same => spec_modify ?_
      have sound₃ := sound₂.same same
      have tables₃ : s₃.tables = s.tables.setLife np .used := same.tables.trans tables₂
      refine ⟨⟨sound₃.exact.setLife fun _ fd => ?_, sound₃.held⟩, fun _ _ => ?_⟩
      · rw [tables₃]
        exact bare fd
      · rw [tables₃]
        exact ⟨rfl, fun _ => rfl, fun _ => rfl⟩

/-- The descriptors of a process that exits. -/
theorem closeFiles_spec (fds : List Fd) (sound : Sound k s) (idle : s.tables.transfer p = none)
    : Spec (closeFiles k p fds) s fun _ s' =>
        Sound k s' ∧ ∀ fd, fd ∈ fds ∨ s.tables.ofile p fd = none → s'.tables.ofile p fd = none := by
  induction fds generalizing s with
  | nil =>
    refine ⟨sound, fun fd closed => ?_⟩
    exact closed.resolve_left List.not_mem_nil
  | cons fd rest ih =>
    refine spec_get ?_
    cases here : s.tables.ofile p fd with
    | none =>
      refine (ih sound idle).mono fun _ s' closed => ⟨closed.1, fun fd' some => closed.2 fd' ?_⟩
      rcases some with member | before
      · rcases List.mem_cons.mp member with rfl | later
        · exact .inr here
        · exact .inl later
      · exact .inr before
    | some f =>
      obtain ⟨commutes, life, transfer, ofile⟩ := release_setOfile s.tables f p fd none
      refine (fileclose_spec sound.held (sound.exact.referenced here) fun isPipe => ?_).bind
        fun _ s₁ closed => spec_modify ?_
      · exact (sound.exact.allocated _).mpr ⟨f, _, isPipe, rfl, rfl⟩
      have detached : Sound k { s₁ with tables := s₁.tables.setOfile p fd none } := by
        refine ⟨?_, closed.2⟩
        rw [closed.1, commutes]
        exact sound.exact.detach here idle
      have idle₁ : (s₁.tables.setOfile p fd none).transfer p = none := by
        change s₁.tables.transfer p = none
        rw [closed.1, transfer]
        exact idle
      refine (ih detached idle₁).mono fun _ s' rest => ⟨rest.1, fun fd' some => rest.2 fd' ?_⟩
      by_cases same : fd' = fd
      · subst same
        exact .inr (setOfile_self ..)
      · rcases some with member | before
        · exact .inl ((List.mem_cons.mp member).resolve_left same)
        · refine .inr ((setAt_other s₁.tables.ofile none fun both => same both.2).trans ?_)
          rw [closed.1, ofile]
          exact before

section

variable (sound : Sound k s)
include sound

/-- What `exit` leaves: the descriptors are closed. -/
theorem exit_after (idle : s.tables.transfer p = none) (status : BitVec 32)
    : Spec (do kexit k p status; return .exited) s (After k s) := by
  refine Meets.bind (R := fun _ s' => Sound k s') ?_ fun _ s' sound =>
    ⟨sound, fun isError => by cases isError⟩
  refine spec_get ?_
  split_ifs
  · trivial
  · refine (closeFiles_spec (List.finRange NOFILE) sound idle).bind fun _ s₁ closed => ?_
    refine (outside_call rfl).then fun _ s₂ same => ?_
    have sound₂ := closed.1.same same
    refine ⟨sound₂.exact.setLife fun _ fd => ?_, sound₂.held⟩
    rw [same.tables]
    exact closed.2 fd (.inl (List.mem_finRange fd))

/-- Freeing the slot of an exited process concerns no file. -/
theorem reap_after (dead : s.tables.life p = .zombie)
    : Spec (do call k (.freeproc p); modifyTables (·.setLife p .unused); return .exited) s
        (After k s) := by
  refine (outside_call rfl).then fun _ s₁ same => spec_modify ?_
  have sound₁ := sound.same same
  refine ⟨⟨sound₁.exact.setLife fun _ => ?_, sound₁.held⟩, fun isError => by cases isError⟩
  rw [same.tables]
  exact sound.exact.bare p (.inr dead)

-- Runs

/-- Every system call keeps the tables exact, and no panic of `filedup` or `fileclose` is reached.
-/
theorem Action.run_spec {action : Action} (enabled : action.Enabled s.tables)
    : Spec (action.run k) s (Attempted k s action) := by
  have other {code : Sys W Outcome} (spec : Spec code s (After k s))
      : Spec code s (Attempted k s action) :=
    spec.mono fun _ _ after => ⟨after.sound, fun _ => after.failed⟩
  cases action with
  | «open» p path omode => exact other (open_after sound enabled.1 path omode)
  | pipe p fdarray => exact other (pipe_after sound enabled.1 fdarray)
  | dup p fd => exact other (dup_after sound enabled.1 fd)
  | close p fd => exact other (close_after sound enabled.2 fd)
  | read p fd addr n => exact other (read_after sound fd addr n)
  | write p fd addr n => exact other (write_after sound fd addr n)
  | fstat p fd addr => exact other (fstat_after sound fd addr)
  | fork p => exact fork_after sound
  | exit p status => exact other (exit_after sound enabled.2 status)
  | resume p =>
    refine spec_get ?_
    cases inside : s.tables.transfer p with
    | none => exact ⟨sound, fun _ isError => by cases isError⟩
    | some transfer => exact other (settle_after (round_spec sound inside))
  | reap p => exact other (reap_after sound enabled)

/-- Every step keeps the tables sound. -/
theorem Sound.step {step : Action × Outcome} (taken : Step k s step s')
    : Attempted k s step.1 step.2 s' := by
  have spec := Action.run_spec sound taken.1
  rw [Spec, taken.2] at spec
  exact spec

end

/-- So does every run from a booted system, by induction on its steps. -/
theorem Sound.run {start : State W} {history : List ((Action × Outcome) × State W)}
    (booted : start.tables.Booted) (free : k.held start.world = ∅)
    (run : Run (Step k) start history s)
    : Sound k s := by
  induction run with
  | nil =>
    refine ⟨booted.exact, ?_⟩
    rw [Held, free]
    ext pi
    simp [booted.pipes]
  | next _ taken ih => exact (ih.step taken).sound

/-- In every state between system calls, the references of a file are the descriptors that point to
it, and the page of a pipe is allocated while one of its two files has references. A call that
returns -1 changes none of this, unless it is a `fork` with that pid, and `filedup` and
`fileclose` do not panic.
-/
theorem file_references_are_exact {start : State W} {history : List ((Action × Outcome) × State W)}
    (booted : start.tables.Booted) (free : k.held start.world = ∅)
    (run : Run (Step k) start history s)
    : (∀ f, (s.tables.files f).ref = s.tables.references f)
      ∧ (∀ pi, pi ∈ k.held s.world
        ↔ ∃ f writes, s.tables.IsEnd f pi writes ∧ 0 < (s.tables.files f).ref)
      ∧ (∀ f g pi writes, s.tables.IsEnd f pi writes → s.tables.IsEnd g pi writes → f = g)
      ∧ (∀ action s', action.Numbered k s → Step k s (action, .returned (-1)) s'
        → Undisturbed s.tables s'.tables ∧ k.held s'.world = k.held s.world)
      ∧ ∀ action : Action, action.Enabled s.tables
        → action.run k s ≠ .error .filedup ∧ action.run k s ≠ .error .fileclose := by
  have sound := Sound.run booted free run
  refine ⟨sound.exact.counted, fun pi => ?_, sound.exact.single,
    fun action s' numbered taken => ?_, fun action enabled => ?_⟩
  · rw [sound.held]
    change (s.tables.pipes pi).isSome = true ↔ _
    rw [sound.exact.allocated pi]
    exact exists_congr fun f => exists_congr fun writes =>
      ⟨fun isEnd => ⟨isEnd, sound.exact.ref_of_end isEnd⟩, And.left⟩
  · have after := sound.step taken
    have still := after.failed numbered rfl
    refine ⟨still, ?_⟩
    rw [after.sound.held, sound.held]
    ext pi
    change (s'.tables.pipes pi).isSome = true ↔ (s.tables.pipes pi).isSome = true
    rw [still.pipes pi]
  · have spec := Action.run_spec sound enabled
    constructor
    · intro panics
      rw [Spec, panics] at spec
      exact spec
    · intro panics
      rw [Spec, panics] at spec
      exact spec

/-- A kernel in which every operation succeeds and pages are numbers. -/
def easyRun : {α : Type} → Op α → Finset Nat → Except String (α × Finset Nat)
  | _, .argstr _ _, pages => .ok (some fun _ => 0, pages)
  | _, .create _ _, pages | _, .namei _ _, pages => .ok (some 1, pages)
  | _, .type _, pages => .ok (T_FILE, pages)
  | _, .major _, pages => .ok (0, pages)
  | _, .readlink _ path, pages => .ok ((0, path), pages)
  | _, .opsRead _ _ _ _ n, pages | _, .opsWrite _ _ _ _ n, pages => .ok (n, pages)
  | _, .devsw _ _, pages | _, .stat _ _ _, pages | _, .copyout _ _ _, pages
  | _, .uvmcopy _ _, pages => .ok (true, pages)
  | _, .device _ _ _ _ _ n _, pages => .ok (.inr n, pages)
  | _, .copyin _ _, pages => .ok (some 0, pages)
  | _, .killed _, pages => .ok (false, pages)
  | _, .kalloc, pages => .ok (some (pages.sup id + 1), insert (pages.sup id + 1) pages)
  | _, .kfree pa, pages => .ok ((), pages.erase pa)
  | _, .page _, pages => .ok (fun _ => 0, pages)
  | _, .allocproc _, pages => .ok (some 2, pages)
  | _, .beginOp, pages | _, .endOp, pages | _, .ilock _, pages | _, .iunlock _, pages
  | _, .iunlockput _, pages | _, .iput _, pages | _, .setOps _, pages | _, .itrunc _, pages
  | _, .freeproc _, pages | _, .copyproc _ _, pages | _, .leave _ _, pages => .ok ((), pages)

theorem easyRun_fresh (pages : Finset Nat) : pages.sup id + 1 ∉ pages := by
  intro member
  have bound : pages.sup id + 1 ≤ pages.sup id := Finset.le_sup (f := id) member
  omega

theorem easyRun_kalloc_some {pa : Nat} (run : easyRun .kalloc w = .ok (some pa, w'))
    : pa ∉ (w : Set Nat) ∧ (w' : Set Nat) = insert pa (w : Set Nat) := by
  cases run
  exact ⟨easyRun_fresh w, Finset.coe_insert ..⟩

theorem easyRun_kalloc_none (run : easyRun .kalloc w = .ok (none, w'))
    : (w' : Set Nat) = (w : Set Nat) := by
  cases run

theorem easyRun_kfree {pa : Nat} (_ : pa ∈ (w : Set Nat))
    (run : easyRun (.kfree pa) w = .ok ((), w'))
    : (w' : Set Nat) = (w : Set Nat) \ {pa} := by
  cases run
  exact Finset.coe_erase ..

theorem easyRun_kept {op : Op α} {a : α} (other : op.allocates = false)
    (run : easyRun op w = .ok (a, w'))
    : (w' : Set Nat) = (w : Set Nat) := by
  cases op <;> cases run <;> first | rfl | cases other

def easyWorld : World (Finset Nat) where
  run := easyRun
  held := fun pages => pages
  kalloc_some := easyRun_kalloc_some
  kalloc_none := easyRun_kalloc_none
  kfree := easyRun_kfree
  kept := easyRun_kept

theorem zero_lt_nproc : 0 < NPROC := by decide

def firstProc : Proc := ⟨0, zero_lt_nproc⟩

/-- The first process runs, and nothing is open. -/
def freshSystem : State (Finset Nat) where
  tables :=
    { files := fun _ => ⟨.none, 0, false, false, 0, 0, 0, 0⟩
      pipes := fun _ => none
      ofile := fun _ _ => none
      life := fun p => if p.val = 0 then .live else .unused
      transfer := fun _ => none
      initproc := firstProc }
  world := ∅

theorem freshSystem_booted : freshSystem.tables.Booted :=
  ⟨fun _ => ⟨rfl, rfl⟩, fun _ => rfl, fun _ _ => rfl, fun _ => rfl⟩

/-- The calls that can be made are steps. -/
theorem makes_sound (k : World (Finset Nat)) (s : State (Finset Nat)) (action : Action)
    (step : Action × Outcome) (s' : State (Finset Nat))
    (taken : tried (fun s action => action.Enabled s.tables) (Action.run k) s action
      = some (step, s'))
    : Step k s step s' ∧ step.1 = action :=
  tried_sound s action step s' taken

/-- Witness: the ends of a pipe are shared with a new process, which closes one, cannot close it
again, and exits.
-/
theorem shared_pipe_is_exact
    : ∃ history final, Run (Step easyWorld) freshSystem history final
        ∧ (steps history).map Prod.snd
          = [.returned 0, .returned 2, .returned 0, .returned (-1), .exited]
        ∧ (∀ f, (final.tables.files f).ref = final.tables.references f)
        ∧ (final.tables.files 0).ref = 1 := by
  obtain ⟨history, final, run, _, outcomes, one⟩ :=
    run_of_follows (makes_sound easyWorld) freshSystem
    [.pipe 0 0, .fork 0, .close 1 0, .close 1 0, .exit 1 0]
    (fun history final => (steps history).map Prod.snd
        = [.returned 0, .returned 2, .returned 0, .returned (-1), .exited]
      ∧ (final.tables.files 0).ref = 1)
    (by decide +kernel)
  exact ⟨history, final, run, outcomes,
    (file_references_are_exact freshSystem_booted Finset.coe_empty run).1, one⟩

/-- The same kernel after the pids have wrapped around. -/
def lateRun : {α : Type} → Op α → Finset Nat → Except String (α × Finset Nat)
  | _, .allocproc _, pages => .ok (some (-1), pages)
  | _, op, pages => easyRun op pages

theorem lateRun_kept {op : Op α} {a : α} (other : op.allocates = false)
    (run : lateRun op w = .ok (a, w'))
    : (w' : Set Nat) = (w : Set Nat) := by
  cases op <;> cases run <;> first | rfl | cases other

def lateWorld : World (Finset Nat) where
  run := lateRun
  held := fun pages => pages
  kalloc_some := easyRun_kalloc_some
  kalloc_none := easyRun_kalloc_none
  kfree := easyRun_kfree
  kept := lateRun_kept

/-- A `fork` that succeeds with the pid -1 returns what a `fork` that fails returns, and has
raised the references of the files.
-/
theorem fork_returns_pid_minus_one
    : freshSystem.tables.Booted ∧ lateWorld.held freshSystem.world = ∅
      ∧ ∃ history final, Run (Step lateWorld) freshSystem history final
        ∧ (steps history).map Prod.snd = [.returned 0, .returned (-1)]
        ∧ history.map (fun entry => (entry.2.tables.files 0).ref) = [1, 0]
        ∧ (final.tables.files 0).ref = 2 := by
  obtain ⟨history, final, run, _, passes⟩ := run_of_follows (makes_sound lateWorld) freshSystem
    [.pipe 0 0, .fork 0]
    (fun history final => (steps history).map Prod.snd = [.returned 0, .returned (-1)]
      ∧ history.map (fun entry => (entry.2.tables.files 0).ref) = [1, 0]
      ∧ (final.tables.files 0).ref = 2)
    (by decide +kernel)
  exact ⟨freshSystem_booted, Finset.coe_empty, history, final, run, passes⟩

end Xv6.Files
