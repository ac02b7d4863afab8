import Xv6.Files.Exactness

/-! Slots of the file table carry nothing over to the next file: two systems that differ in the
fields that free slots have kept do the same in all runs.
-/

namespace Xv6.Files

open Function Library
open Pipes (Pipe Byte)

variable {α : Type}

-- What is read of a file

/-- The fields that are read of a file of its type are the same. -/
structure File.Agrees (a b : File) : Prop where
  type : b.type = a.type
  ref : b.ref = a.ref
  readable : a.type ≠ .none → b.readable = a.readable
  writable : a.type ≠ .none → b.writable = a.writable
  pipe : a.type = .pipe → b.pipe = a.pipe
  ip : a.type = .inode ∨ a.type = .device → b.ip = a.ip
  off : a.type = .inode ∨ a.type = .device → b.off = a.off
  major : a.type = .device → b.major = a.major

theorem File.Agrees.refl (a : File) : a.Agrees a :=
  ⟨rfl, rfl, fun _ => rfl, fun _ => rfl, fun _ => rfl, fun _ => rfl, fun _ => rfl, fun _ => rfl⟩

variable {a b : File}

theorem File.Agrees.symm (agrees : a.Agrees b) : b.Agrees a := by
  obtain ⟨type, ref, readable, writable, pipe, ip, off, major⟩ := agrees
  rw [← type] at readable writable pipe ip off major
  exact ⟨type.symm, ref.symm, fun h => (readable h).symm, fun h => (writable h).symm,
    fun h => (pipe h).symm, fun h => (ip h).symm, fun h => (off h).symm, fun h => (major h).symm⟩

/-- Of a slot that holds no file nothing is read. -/
theorem File.Stale.agrees (one : a.Stale) (other : b.Stale) : a.Agrees b := by
  refine ⟨other.2.trans one.2.symm, other.1.trans one.1.symm, ?_, ?_, ?_, ?_, ?_, ?_⟩
  all_goals
    intro used
    rw [one.2] at used
    simp at used

section

variable (agrees : a.Agrees b)
include agrees

/-- Setting the count keeps the agreement. -/
theorem File.Agrees.setRef (ref : Nat) : File.Agrees { a with ref := ref } { b with ref := ref } :=
  ⟨agrees.type, rfl, agrees.readable, agrees.writable, agrees.pipe, agrees.ip, agrees.off,
    agrees.major⟩

/-- `pipealloc` writes all that is read of an end of a pipe. -/
theorem File.Agrees.pipeEnd (pi : Nat) (writes : Bool)
    : (a.pipeEnd pi writes).Agrees (b.pipeEnd pi writes) := by
  refine ⟨rfl, agrees.ref, fun _ => rfl, fun _ => rfl, fun _ => rfl, ?_, ?_, ?_⟩
  all_goals
    intro type
    simp [File.pipeEnd] at type

/-- `sys_open` writes all that is read of the file it opens. -/
theorem File.Agrees.opened (type major : BitVec 16) (ip : Nat) (omode : BitVec 32)
    : (a.opened type major ip omode).Agrees (b.opened type major ip omode) := by
  unfold File.opened
  split_ifs
  · exact ⟨rfl, agrees.ref, fun _ => rfl, fun _ => rfl, fun isPipe => (by cases isPipe),
      fun _ => rfl, fun _ => rfl, fun _ => rfl⟩
  · exact ⟨rfl, agrees.ref, fun _ => rfl, fun _ => rfl, fun isPipe => (by cases isPipe),
      fun _ => rfl, fun _ => rfl, fun isDevice => (by cases isDevice)⟩

/-- So does moving the offset. -/
theorem File.Agrees.addOff (r : BitVec 32)
    : File.Agrees { a with off := a.off + r } { b with off := b.off + r } :=
  ⟨agrees.type, agrees.ref, agrees.readable, agrees.writable, agrees.pipe, agrees.ip,
    fun type => congrArg (· + r) (agrees.off type), agrees.major⟩

end

-- Two systems

variable {W : Type} {k : World W} {s t : State W} {p np : Proc} {fd : Fd} {f : Slot}

/-- Two systems that agree on all that is read. -/
structure Matched (s t : State W) : Prop where
  world : t.world = s.world
  files : ∀ f, (s.tables.files f).Agrees (t.tables.files f)
  pipes : t.tables.pipes = s.tables.pipes
  ofile : t.tables.ofile = s.tables.ofile
  life : t.tables.life = s.tables.life
  transfer : t.tables.transfer = s.tables.transfer
  initproc : t.tables.initproc = s.tables.initproc

theorem Matched.symm (matched : Matched s t) : Matched t s :=
  ⟨matched.world.symm, fun f => (matched.files f).symm, matched.pipes.symm, matched.ofile.symm,
    matched.life.symm, matched.transfer.symm, matched.initproc.symm⟩

/-- Tables that are alike match, over the same rest of the kernel. -/
theorem Alike.matched (alike : Alike s.tables t.tables) (world : t.world = s.world)
    : Matched s t := by
  refine ⟨world, fun f => ?_, alike.pipes, alike.ofile, alike.life, alike.transfer,
    alike.initproc⟩
  rcases alike.files f with same | ⟨one, other⟩
  · rw [same]
    exact .refl _
  · exact one.agrees other

/-- The same code does the same in both systems. -/
abbrev Both {α : Type} (code : Sys W α) (s t : State W) : Prop :=
  Lockstep Matched (code s) (code t)

/-- Code that does the same in every two matched systems. -/
def Blind {α : Type} (code : Sys W α) : Prop := ∀ s t, Matched s t → Both code s t

theorem blind_pure (a : α) : Blind (pure a : Sys W α) := fun _ _ matched => ⟨rfl, matched⟩

/-- Code that does the same in both systems, step after step, does so as a whole. -/
theorem Blind.bind {β : Type} {code : Sys W α} {next : α → Sys W β} (first : Blind code)
    (rest : ∀ a, Blind (next a))
    : Blind (code >>= next) :=
  fun s t matched => (first s t matched).bind fun a s' t' => rest a s' t'

/-- The two branches after a call that may find nothing. -/
theorem Blind.option {β : Type} {code : Sys W (Option β)} {next : Option β → Sys W α}
    (first : Blind code) (absent : Blind (next none)) (present : ∀ b, Blind (next (some b)))
    : Blind (code >>= next) := by
  refine first.bind fun found => ?_
  cases found with
  | none => exact absent
  | some b => exact present b

/-- The rest of the kernel answers both systems alike, and leaves the tables. -/
theorem Matched.call {α : Type} (matched : Matched s t) (op : Op α)
    : Lockstep (fun s' t' => Matched s' t' ∧ s'.tables = s.tables) (call k op s) (call k op t) := by
  unfold Files.call
  rw [matched.world]
  cases k.run op s.world with
  | error message => rfl
  | ok result =>
    exact ⟨rfl, ⟨rfl, matched.files, matched.pipes, matched.ofile, matched.life,
      matched.transfer, matched.initproc⟩, rfl⟩

theorem blind_call (op : Op α) : Blind (call k op) :=
  fun _ _ matched => (matched.call op).mono fun _ _ both => both.1

/-- Code that only calls the rest of the kernel does not see stale fields. -/
theorem OnlyCalls.blind {code : Sys W α} (calls : OnlyCalls k code) : Blind code := by
  induction calls with
  | pure a => exact blind_pure a
  | call => exact blind_call _
  | bind _ _ first rest => exact first.bind rest

/-- Reading the tables: what follows reads them where they match. -/
theorem both_get {next : Tables → Sys W α}
    (rest : Lockstep Matched (next s.tables s) (next t.tables t))
    : Both (getTables >>= next) s t := by
  exact rest

/-- A change of the tables that keeps them matched. -/
theorem both_modify {change change' : Tables → Tables}
    (matched : Matched { s with tables := change s.tables } { t with tables := change' t.tables })
    : Lockstep Matched (modifyTables change s) (modifyTables change' t) :=
  ⟨rfl, matched⟩

section

variable (matched : Matched s t)
include matched

/-- Both systems write files that agree. -/
theorem Matched.setFile (agrees : a.Agrees b)
    : Matched { s with tables := s.tables.setFile f a }
        { t with tables := t.tables.setFile f b } := by
  refine ⟨matched.world, fun g => ?_, matched.pipes, matched.ofile, matched.life, matched.transfer,
    matched.initproc⟩
  by_cases same : g = f
  · subst same
    simp only [setFile_self]
    exact agrees
  · simp only [setFile_other _ _ same]
    exact matched.files g

/-- Both systems write the same pipe. -/
theorem Matched.setPipe (pi : Nat) (pipe : Option Pipe)
    : Matched { s with tables := s.tables.setPipe pi pipe }
        { t with tables := t.tables.setPipe pi pipe } :=
  ⟨matched.world, matched.files, congrArg (fun pipes : Nat → Option Pipe => update pipes pi pipe)
    matched.pipes, matched.ofile, matched.life, matched.transfer, matched.initproc⟩

/-- Both systems write the same descriptor. -/
theorem Matched.setOfile (p : Proc) (fd : Fd) (entry : Option Slot)
    : Matched { s with tables := s.tables.setOfile p fd entry }
        { t with tables := t.tables.setOfile p fd entry } :=
  ⟨matched.world, matched.files, matched.pipes, congrArg (setAt · p fd entry) matched.ofile,
    matched.life, matched.transfer, matched.initproc⟩

/-- Both systems change the state of a process. -/
theorem Matched.setLife (p : Proc) (life : Life)
    : Matched { s with tables := s.tables.setLife p life }
        { t with tables := t.tables.setLife p life } :=
  ⟨matched.world, matched.files, matched.pipes, matched.ofile,
    congrArg (fun lives : Proc → Life => update lives p life) matched.life, matched.transfer,
    matched.initproc⟩

/-- Both systems change where a process is in its transfer. -/
theorem Matched.setTransfer (p : Proc) (transfer : Option Transfer)
    : Matched { s with tables := s.tables.setTransfer p transfer }
        { t with tables := t.tables.setTransfer p transfer } :=
  ⟨matched.world, matched.files, matched.pipes, matched.ofile, matched.life,
    congrArg (fun all : Proc → Option Transfer => update all p transfer) matched.transfer,
    matched.initproc⟩

end

-- kernel/file.c and kernel/pipe.c

/-- `filealloc` finds the same slot, because the counts are the same. -/
theorem blind_filealloc : Blind (filealloc : Sys W (Option Slot)) := by
  intro s t matched
  refine both_get ?_
  have sameTest : (fun f => decide ((t.tables.files f).ref = 0))
      = fun f => decide ((s.tables.files f).ref = 0) := by
    funext f
    rw [(matched.files f).ref]
  rw [sameTest]
  cases scan fun f => decide ((s.tables.files f).ref = 0) with
  | none => exact ⟨rfl, matched⟩
  | some f => exact ⟨rfl, matched.setFile ((matched.files f).setRef 1)⟩

/-- `filedup` reads the count only. -/
theorem blind_filedup (f : Slot) : Blind (filedup f : Sys W Unit) := by
  intro s t matched
  refine both_get ?_
  rw [(matched.files f).ref]
  split_ifs
  · rfl
  · exact both_modify (matched.setFile ((matched.files f).setRef _))

/-- `pipeclose` does not look at files. -/
theorem blind_pipeclose (pi : Nat) (writes : Bool) : Blind (pipeclose k pi writes) := by
  intro s t matched
  refine both_get ?_
  rw [matched.pipes]
  cases s.tables.pipes pi with
  | none => rfl
  | some pipe =>
    dsimp only
    generalize (if writes = true then { pipe with writeopen := false }
      else { pipe with readopen := false }) = pipe'
    split_ifs
    · exact Lockstep.bind (both_modify (matched.setPipe pi none)) fun _ s' t' => blind_call _ s' t'
    · exact both_modify (matched.setPipe pi (some pipe'))

/-- `fileclose` reads the other fields after it has found the type. -/
theorem blind_fileclose (f : Slot) : Blind (fileclose k f) := by
  intro s t matched
  have agrees := matched.files f
  refine both_get ?_
  rw [agrees.ref]
  split_ifs
  · rfl
  · exact both_modify (matched.setFile (agrees.setRef _))
  · have cleared : File.Agrees { s.tables.files f with ref := 0, type := .none }
        { t.tables.files f with ref := 0, type := .none } :=
      File.Stale.agrees ⟨rfl, rfl⟩ ⟨rfl, rfl⟩
    refine Lockstep.bind (both_modify (matched.setFile cleared)) fun _ s' t' matched => ?_
    rw [agrees.type]
    cases type : (s.tables.files f).type with
    | none => exact ⟨rfl, matched⟩
    | pipe =>
      rw [agrees.pipe type, agrees.writable (by rw [type]; decide)]
      exact blind_pipeclose _ _ s' t' matched
    | inode | device =>
      rw [agrees.ip (by simp [type])]
      exact ((blind_call _).bind fun _ => (blind_call _).bind fun _ => blind_call _) s' t' matched

/-- `pipealloc` overwrites the fields that it sets. -/
theorem blind_pipealloc : Blind (pipealloc k) := by
  refine blind_filealloc.option (blind_pure _) fun f0 => ?_
  refine blind_filealloc.option ((blind_fileclose f0).bind fun _ => blind_pure _) fun f1 => ?_
  refine (blind_call _).option ?_ fun pi => ?_
  · exact (blind_fileclose f0).bind fun _ => (blind_fileclose f1).bind fun _ => blind_pure _
  · refine (blind_call _).bind fun data => ?_
    refine Blind.bind (fun s t matched => both_modify (matched.setPipe pi _)) fun _ => ?_
    refine Blind.bind (fun s t matched => both_modify (matched.setFile
      ((matched.files f0).pipeEnd pi false))) fun _ => ?_
    refine Blind.bind (fun s t matched => both_modify (matched.setFile
      ((matched.files f1).pipeEnd pi true))) fun _ => ?_
    exact blind_pure _

/-- Code that needs its pipe finds the same one. -/
theorem blind_pipe (pi : Nat) {next : Pipe → Sys W α} (rest : ∀ pipe, Blind (next pipe))
    : Blind (do
        let t ← getTables
        match t.pipes pi with
        | none => stop .freed
        | some pipe => next pipe) := by
  intro s t matched
  refine both_get ?_
  rw [matched.pipes]
  cases s.tables.pipes pi with
  | none => rfl
  | some pipe => exact rest pipe s t matched

theorem blind_setPipe (pi : Nat) (pipe : Option Pipe)
    : Blind (modifyTables (·.setPipe pi pipe) : Sys W Unit) :=
  fun _ _ matched => both_modify (matched.setPipe pi pipe)

theorem blind_setOfile (p : Proc) (fd : Fd) (entry : Option Slot)
    : Blind (modifyTables (·.setOfile p fd entry) : Sys W Unit) :=
  fun _ _ matched => both_modify (matched.setOfile p fd entry)

theorem blind_setLife (p : Proc) (life : Life)
    : Blind (modifyTables (·.setLife p life) : Sys W Unit) :=
  fun _ _ matched => both_modify (matched.setLife p life)

theorem blind_setTransfer (p : Proc) (transfer : Option Transfer)
    : Blind (modifyTables (·.setTransfer p transfer) : Sys W Unit) :=
  fun _ _ matched => both_modify (matched.setTransfer p transfer)

/-- A round of `pipewrite`. -/
theorem blind_pipewrite (p : Proc) (pi : Nat) (addr : BitVec 64) (n : BitVec 32) (i : Nat)
    : Blind (pipewrite k p pi addr n i) := by
  refine blind_pipe pi fun pipe => ?_
  split_ifs
  · exact blind_pure _
  · refine (blind_call _).bind fun killed => ?_
    split_ifs
    · exact blind_pure _
    · exact blind_pure _
  · refine (blind_call _).bind fun killed => ?_
    split_ifs
    · exact blind_pure _
    · exact (blind_call _).option (blind_pure _) fun ch =>
        (blind_setPipe _ _).bind fun _ => blind_pure _
  · exact blind_pure _

/-- The waiting loop of `piperead`. -/
theorem blind_piperead (p : Proc) (pi : Nat) (addr : BitVec 64) (n : BitVec 32)
    : Blind (piperead k p pi addr n) := by
  refine blind_pipe pi fun pipe => ?_
  split_ifs
  · refine (blind_call _).bind fun killed => ?_
    split_ifs
    · exact blind_pure _
    · exact blind_pure _
  · exact blind_pure _

/-- The copying loop of `piperead`. -/
theorem blind_pipecopy (p : Proc) (pi : Nat) (addr : BitVec 64) (n : BitVec 32) (i : Nat)
    : Blind (pipecopy k p pi addr n i) := by
  refine blind_pipe pi fun pipe => ?_
  split_ifs
  · exact blind_pure _
  · refine (blind_call _).bind fun copied => ?_
    split_ifs
    · exact (blind_setPipe _ _).bind fun _ => blind_pure _
    · exact blind_pure _
  · refine (blind_call _).bind fun copied => ?_
    split_ifs
    · exact (blind_setPipe _ _).bind fun _ => blind_pure _
    · exact blind_pure _
  · exact blind_pure _

/-- `f->off += r` keeps a stale offset stale. -/
theorem blind_advanceOff (f : Slot) (r : BitVec 32) : Blind (advanceOff f r : Sys W Unit) := by
  intro s t matched
  refine both_modify ?_
  split_ifs
  · exact matched.setFile ((matched.files f).addOff r)
  · exact matched

/-- A device works with what the call has read of the file. -/
theorem blind_deviceRound (p : Proc) (f : Slot) (writes : Bool) (major : BitVec 16)
    (addr : BitVec 64) (off n : BitVec 32) (point : Nat)
    : Blind (deviceRound k p f writes major addr off n point) := by
  refine (blind_call _).bind fun result => ?_
  cases result with
  | inl point' => exact blind_pure _
  | inr r => exact (blind_advanceOff f r).bind fun _ => blind_pure _

section

variable (matched : Matched s t)
include matched

/-- A round of `filewrite` reads the inode and the offset of an inode file. -/
theorem both_inodeWriteRound (type : (s.tables.files f).type = .inode) (p : Proc) (addr : BitVec 64)
    (n : BitVec 32) (i : Nat)
    : Both (inodeWriteRound k p f addr n i) s t := by
  unfold inodeWriteRound
  by_cases more : (i : Int) < n.toInt
  · simp only [if_pos more]
    refine (matched.call _).bind fun _ s₁ t₁ both => both_get ?_
    obtain ⟨matched₁, tables⟩ := both
    have agrees := matched₁.files f
    rw [tables] at agrees
    rw [tables, agrees.ip (.inl type), agrees.off (.inl type)]
    refine Blind.bind (blind_call _) (fun _ => ?_) s₁ t₁ matched₁
    refine (blind_call _).bind fun r => (blind_advanceOff f r).bind fun _ => ?_
    refine (blind_call _).bind fun _ => (blind_call _).bind fun _ => ?_
    by_cases short : r.toInt ≠ (min (n.toInt.toNat - i) maxChunk : Nat)
    · rw [if_pos short]
      exact blind_pure _
    · rw [if_neg short]
      exact blind_pure _
  · simp only [if_neg more]
    exact blind_pure _ s t matched

/-- A device file: its major number is read. -/
theorem both_deviceStart (type : (s.tables.files f).type = .device) (writes : Bool)
    (addr : BitVec 64) (n : BitVec 32)
    : Lockstep Matched (deviceStart k f (s.tables.files f) writes addr n s)
        (deviceStart k f (t.tables.files f) writes addr n t) := by
  have agrees := matched.files f
  unfold deviceStart
  rw [agrees.major type, agrees.off (.inr type)]
  split_ifs
  · exact ⟨rfl, matched⟩
  · refine Blind.bind (blind_call _) (fun present => ?_) s t matched
    split_ifs
    · exact blind_pure _
    · exact blind_pure _

/-- `fileread` reads a field only where the type of the file says that it is set. -/
theorem both_fileread (type : (s.tables.files f).type ≠ .none) (p : Proc) (addr : BitVec 64)
    (n : BitVec 32)
    : Both (fileread k p f addr n) s t := by
  have agrees := matched.files f
  refine both_get ?_
  rw [agrees.readable type]
  split_ifs
  · exact ⟨rfl, matched⟩
  · rw [agrees.type]
    cases isType : (s.tables.files f).type with
    | none => exact absurd isType type
    | pipe =>
      rw [agrees.pipe isType]
      exact ⟨rfl, matched⟩
    | device => exact both_deviceStart matched isType false addr n
    | inode =>
      rw [agrees.ip (.inl isType), agrees.off (.inl isType)]
      exact ((blind_call _).bind fun _ => (blind_call _).bind fun r =>
        (blind_advanceOff f r).bind fun _ => (blind_call _).bind fun _ => blind_pure _)
        s t matched

/-- `filewrite` reads a field only where the type of the file says that it is set. -/
theorem both_filewrite (type : (s.tables.files f).type ≠ .none) (addr : BitVec 64) (n : BitVec 32)
    : Both (filewrite k f addr n) s t := by
  have agrees := matched.files f
  refine both_get ?_
  rw [agrees.writable type]
  split_ifs
  · exact ⟨rfl, matched⟩
  · rw [agrees.type]
    cases isType : (s.tables.files f).type with
    | none => exact absurd isType type
    | pipe =>
      rw [agrees.pipe isType]
      exact ⟨rfl, matched⟩
    | device => exact both_deviceStart matched isType true addr n
    | inode => exact ⟨rfl, matched⟩

end

/-- `filestat` reads the inode of an inode or device file. -/
theorem blind_filestat (p : Proc) (f : Slot) (addr : BitVec 64) : Blind (filestat k p f addr) := by
  intro s t matched
  have agrees := matched.files f
  refine both_get ?_
  rw [agrees.type]
  cases isType : (s.tables.files f).type with
  | none | pipe => exact ⟨rfl, matched⟩
  | inode | device =>
    rw [agrees.ip (by simp [isType])]
    exact ((blind_call _).bind fun _ => (blind_call _).bind fun copied =>
      (blind_call _).bind fun _ => blind_pure _) s t matched

-- System calls

/-- `argfd` reads the descriptor table. -/
theorem blind_argfd (p : Proc) (fd : BitVec 32)
    : Blind (argfd p fd : Sys W (Option (Fd × Slot))) := by
  intro s t matched
  obtain ⟨found, run, _⟩ := argfd_run s p fd
  rw [Both, run s rfl, run t matched.ofile]
  exact ⟨rfl, matched⟩

/-- `fdalloc` finds the same descriptor. -/
theorem blind_fdalloc (p : Proc) (f : Slot) : Blind (fdalloc p f : Sys W (Option Fd)) := by
  intro s t matched
  refine both_get ?_
  rw [matched.ofile]
  cases scan fun fd => decide (s.tables.ofile p fd = none) with
  | none => exact ⟨rfl, matched⟩
  | some fd => exact ((blind_setOfile p fd _).bind fun _ => blind_pure _) s t matched

theorem blind_sysDup (p : Proc) (fd : BitVec 32) : Blind (sysDup p fd : Sys W Int) := by
  refine (blind_argfd p fd).option (blind_pure _) fun pair => ?_
  refine (blind_fdalloc p pair.2).option (blind_pure _) fun fd' => ?_
  exact (blind_filedup _).bind fun _ => blind_pure _

theorem blind_sysClose (p : Proc) (fd : BitVec 32) : Blind (sysClose k p fd) := by
  refine (blind_argfd p fd).option (blind_pure _) fun pair => ?_
  exact (blind_setOfile p _ _).bind fun _ => (blind_fileclose _).bind fun _ => blind_pure _

theorem blind_sysFstat (p : Proc) (fd : BitVec 32) (addr : BitVec 64)
    : Blind (sysFstat k p fd addr) :=
  (blind_argfd p fd).option (blind_pure _) fun pair => blind_filestat p pair.2 addr

section

variable (sound : Sound k s) (matched : Matched s t)
include sound matched

/-- What follows an `argfd` has a file in use. -/
theorem both_argfd (p : Proc) (fd : BitVec 32) {next : Option (Fd × Slot) → Sys W α}
    (absent : Both (next none) s t)
    (present : ∀ pair, (s.tables.files pair.2).type ≠ .none → Both (next (some pair)) s t)
    : Both (argfd p fd >>= next) s t := by
  obtain ⟨found, run, here⟩ := argfd_run s p fd
  unfold Both
  rw [bind_ok (run s rfl), bind_ok (run t matched.ofile)]
  cases found with
  | none => exact absent
  | some pair =>
    have used := sound.exact.referenced (here pair.1 pair.2 rfl)
    exact present pair (sound.exact.open_of_ref used)

/-- `sys_read` of a file in use. -/
theorem both_sysRead (p : Proc) (fd : BitVec 32) (addr : BitVec 64) (n : BitVec 32)
    : Both (sysRead k p fd addr n) s t :=
  both_argfd sound matched p fd ⟨rfl, matched⟩ fun _ used => both_fileread matched used p addr n

/-- `sys_write` of a file in use. -/
theorem both_sysWrite (p : Proc) (fd : BitVec 32) (addr : BitVec 64) (n : BitVec 32)
    : Both (sysWrite k p fd addr n) s t :=
  both_argfd sound matched p fd ⟨rfl, matched⟩ fun _ used => both_filewrite matched used addr n

end

/-- The end of `sys_open`, from the file on. -/
theorem blind_finishOpen (ip : Nat) (type : BitVec 16) (omode : BitVec 32) (fd : Fd)
    : Blind (finishOpen k ip type omode fd) := by
  unfold finishOpen
  split_ifs
  · exact (blind_call _).bind fun _ => (blind_call _).bind fun _ => (blind_call _).bind fun _ =>
      blind_pure _
  · exact (blind_call _).bind fun _ => (blind_call _).bind fun _ => blind_pure _

/-- `sys_open` from the inode on, with its failing exits. -/
theorem blind_openFile (p : Proc) (ip : Nat) (omode : BitVec 32)
    : Blind (openFile k p ip omode) := by
  refine (blind_call _).bind fun _ => (blind_call _).bind fun type => ?_
  refine (blind_call _).bind fun major => ?_
  split_ifs
  · exact (onlyCalls_putAndEnd ip).blind.bind fun _ => blind_pure _
  · refine blind_filealloc.option ?_ fun f => ?_
    · exact (onlyCalls_putAndEnd ip).blind.bind fun _ => blind_pure _
    refine (blind_fdalloc p f).option ?_ fun fd => ?_
    · exact (blind_fileclose f).bind fun _ =>
        (onlyCalls_putAndEnd ip).blind.bind fun _ => blind_pure _
    refine Blind.bind (fun s t matched => both_modify (matched.setFile
      ((matched.files f).opened type major ip omode))) fun _ => ?_
    exact blind_finishOpen ip type omode fd

theorem blind_sysOpen (p : Proc) (path : BitVec 64) (omode : BitVec 32)
    : Blind (sysOpen k p path omode) := by
  refine (blind_call _).option (blind_pure _) fun path => (blind_call _).bind fun _ => ?_
  exact (onlyCalls_openInode p path omode).blind.option (blind_pure _) fun ip =>
    blind_openFile p ip omode

/-- `sys_pipe` with its failing exits. -/
theorem blind_sysPipe (p : Proc) (fdarray : BitVec 64) : Blind (sysPipe k p fdarray) := by
  refine blind_pipealloc.option (blind_pure _) fun pair => ?_
  have close : Blind (do fileclose k pair.1; fileclose k pair.2; return (-1 : Int)) :=
    (blind_fileclose _).bind fun _ => (blind_fileclose _).bind fun _ => blind_pure _
  refine (blind_fdalloc p pair.1).option close fun fd0 => ?_
  refine (blind_fdalloc p pair.2).option ((blind_setOfile p fd0 none).bind fun _ => close)
    fun fd1 => (onlyCalls_copyFds p fdarray fd0 fd1).blind.bind fun copied => ?_
  split_ifs
  · exact blind_pure _
  · exact (blind_setOfile p fd0 none).bind fun _ => (blind_setOfile p fd1 none).bind fun _ => close

/-- The loop of `kfork` over the descriptors, by induction on them. -/
theorem blind_dupFiles (p np : Proc) (fds : List Fd) : Blind (dupFiles p np fds : Sys W Unit) := by
  induction fds with
  | nil => exact blind_pure _
  | cons fd rest ih =>
    intro s t matched
    refine both_get ?_
    rw [matched.ofile]
    cases s.tables.ofile p fd with
    | none => exact ih s t matched
    | some f =>
      exact ((blind_filedup f).bind fun _ => (blind_setOfile np fd _).bind fun _ => ih) s t matched

theorem blind_allocproc : Blind (allocproc k) := by
  intro s t matched
  refine both_get ?_
  rw [matched.life]
  cases scan fun np => decide (s.tables.life np = .unused) with
  | none => exact ⟨rfl, matched⟩
  | some np =>
    refine Blind.option (blind_call _) ?_ (fun pid => ?_) s t matched
    · exact blind_pure _
    · exact (blind_setLife np _).bind fun _ => blind_pure _

/-- `kfork` copies descriptors, not files. -/
theorem blind_kfork (p : Proc) : Blind (kfork k p) := by
  refine blind_allocproc.option (blind_pure _) fun pair => (blind_call _).bind fun copied => ?_
  split_ifs
  · exact (blind_dupFiles p _ _).bind fun _ => (blind_call _).bind fun _ =>
      (blind_setLife _ _).bind fun _ => blind_pure _
  · exact (blind_call _).bind fun _ => (blind_setLife _ _).bind fun _ => blind_pure _

/-- The loop of `kexit` over the descriptors, by induction on them. -/
theorem blind_closeFiles (p : Proc) (fds : List Fd) : Blind (closeFiles k p fds) := by
  induction fds with
  | nil => exact blind_pure _
  | cons fd rest ih =>
    intro s t matched
    refine both_get ?_
    rw [matched.ofile]
    cases s.tables.ofile p fd with
    | none => exact ih s t matched
    | some f =>
      exact ((blind_fileclose f).bind fun _ => (blind_setOfile p fd _).bind fun _ => ih) s t matched

theorem blind_kexit (p : Proc) (status : BitVec 32) : Blind (kexit k p status) := by
  intro s t matched
  refine both_get ?_
  rw [matched.initproc]
  split_ifs
  · rfl
  · exact ((blind_closeFiles p _).bind fun _ => (blind_call _).bind fun _ => blind_setLife p _)
      s t matched

-- Runs

/-- A round of a transfer works on a file in use. -/
theorem both_round (sound : Sound k s) (matched : Matched s t) {transfer : Transfer}
    (inside : s.tables.transfer p = some transfer)
    : Both (transfer.round k p) s t := by
  obtain ⟨fd, f, _, serves⟩ := sound.exact.busy p transfer inside
  cases transfer with
  | pipewrite pi addr n i => exact blind_pipewrite p pi addr n i s t matched
  | piperead pi addr n => exact blind_piperead p pi addr n s t matched
  | pipecopy pi addr n i => exact blind_pipecopy p pi addr n i s t matched
  | device g writes major addr off n point =>
    exact blind_deviceRound p g writes major addr off n point s t matched
  | inodeWrite g addr n i =>
    obtain ⟨rfl, type⟩ := serves
    exact both_inodeWriteRound matched type p addr n i

/-- The end of a round: the transfer goes on or the call returns. -/
theorem both_settle {code : Sys W (Transfer ⊕ Int)} (both : Both code s t)
    : Both (settle p code) s t := by
  refine Lockstep.bind both fun r s' t' matched => ?_
  cases r with
  | inl next | inr r => exact ((blind_setTransfer p _).bind fun _ => blind_pure _) s' t' matched

theorem blind_returning {code : Sys W Int} (blind : Blind code) : Blind (returning code) :=
  blind.bind fun _ => blind_pure _

/-- A system call does the same in matched systems. -/
theorem Action.both (sound : Sound k s) (matched : Matched s t) (action : Action)
    : Both (action.run k) s t := by
  cases action with
  | «open» p path omode => exact blind_returning (blind_sysOpen p path omode) s t matched
  | pipe p fdarray => exact blind_returning (blind_sysPipe p fdarray) s t matched
  | dup p fd => exact blind_returning (blind_sysDup p fd) s t matched
  | close p fd => exact blind_returning (blind_sysClose p fd) s t matched
  | read p fd addr n => exact both_settle (both_sysRead sound matched p fd addr n)
  | write p fd addr n => exact both_settle (both_sysWrite sound matched p fd addr n)
  | fstat p fd addr => exact blind_returning (blind_sysFstat p fd addr) s t matched
  | fork p => exact blind_returning (blind_kfork p) s t matched
  | exit p status => exact ((blind_kexit p status).bind fun _ => blind_pure _) s t matched
  | resume p =>
    refine both_get ?_
    rw [matched.transfer]
    cases inside : s.tables.transfer p with
    | none => exact ⟨rfl, matched⟩
    | some transfer => exact both_settle (both_round sound matched inside)
  | reap p =>
    exact ((blind_call _).bind fun _ => (blind_setLife p _).bind fun _ => blind_pure _) s t matched

/-- The same actions can be taken. -/
theorem Matched.enabled (matched : Matched s t) {action : Action}
    (enabled : action.Enabled s.tables)
    : action.Enabled t.tables := by
  cases action with
  | «open» | pipe | dup | close | read | write | fstat | fork | exit =>
    simp only [Action.Enabled, Tables.Idle, matched.life, matched.transfer] at enabled ⊢
    exact enabled
  | resume | reap =>
    simp only [Action.Enabled, matched.life, matched.transfer] at enabled ⊢
    exact enabled

/-- A run of one system is a run of the other, by induction on its steps. -/
theorem Matched.run {s₀ t₀ : State W} {history : List ((Action × Outcome) × State W)}
    (sound : Sound k s₀) (matched : Matched s₀ t₀) (run : Run (Step k) s₀ history s)
    : ∃ history' t, Run (Step k) t₀ history' t ∧ history'.map Prod.fst = history.map Prod.fst
        ∧ Matched s t ∧ Sound k s := by
  induction run with
  | nil => exact ⟨[], t₀, .nil, rfl, matched, sound⟩
  | @next history before step after _ taken ih =>
    obtain ⟨history', t, run', same, matched, sound⟩ := ih
    obtain ⟨t', does, matched'⟩ := (Action.both sound matched step.1).ok taken.2
    exact ⟨(step, t) :: history', t', .next run' ⟨matched.enabled taken.1, does⟩,
      congrArg (step :: ·) same, matched', (sound.step taken).sound⟩

/-- What two systems have in common at the end: user memory, files and devices (`world`), pipes, and
the descriptors.
-/
structure SameEffects (s t : State W) : Prop where
  world : t.world = s.world
  pipes : t.tables.pipes = s.tables.pipes
  ofile : t.tables.ofile = s.tables.ofile

/-- What matched systems show to processes is the same. -/
theorem Matched.effects (matched : Matched s t) : SameEffects s t :=
  ⟨matched.world, matched.pipes, matched.ofile⟩

/-- Two systems that differ in what free slots of the file table have kept give the same results in
every run, a new file starts at offset 0, and a slot without references has no type.
-/
theorem free_slots_carry_nothing {start : State W} {history : List ((Action × Outcome) × State W)}
    (booted : start.tables.Booted) (free : k.held start.world = ∅)
    (run : Run (Step k) start history s) (alike : Alike s.tables t.tables)
    (world : t.world = s.world)
    : (∀ later s', Run (Step k) s later s'
        → ∃ later' t', Run (Step k) t later' t' ∧ later'.map Prod.fst = later.map Prod.fst
          ∧ SameEffects s' t'
          ∧ ∀ (action : Action) e, action.run k s' = .error e ↔ action.run k t' = .error e)
      ∧ (∀ later t', Run (Step k) t later t'
        → ∃ later' s', Run (Step k) s later' s' ∧ later'.map Prod.fst = later.map Prod.fst
          ∧ SameEffects s' t')
      ∧ (∀ p path omode r s', Step k s (.open p path omode, .returned r) s' → r ≠ -1
        → ∃ fd f, r = (fd.val : Int) ∧ s'.tables.ofile p fd = some f
          ∧ ((s'.tables.files f).type = .inode ∨ (s'.tables.files f).type = .device)
          ∧ (s'.tables.files f).off = 0)
      ∧ ∀ f, (s.tables.files f).ref = 0 → (s.tables.files f).type = .none := by
  have sound := Sound.run booted free run
  have matched := alike.matched world
  have sound' : Sound k t := sound.failed ⟨alike, by rw [world]⟩
  refine ⟨fun later s' run' => ?_, fun later t' run' => ?_, fun p path omode r s' taken fine => ?_,
    fun f => (sound.exact.typed f).mp⟩
  · obtain ⟨later', t', run', same, matched', sound'⟩ := matched.run sound run'
    exact ⟨later', t', run', same, matched'.effects,
      fun action e => (Action.both sound' matched' action).error_iff e⟩
  · obtain ⟨later', s', run', same, matched', _⟩ := matched.symm.run sound' run'
    exact ⟨later', s', run', same, matched'.symm.effects⟩
  · obtain ⟨r', middle, opened, returned⟩ := bind_eq_ok taken.2
    cases returned
    have spec := sysOpen_spec (k := k) (p := p) sound.exact path omode
    rw [Spec, opened] at spec
    rcases spec with ⟨isError, _⟩ | ⟨opens, _⟩
    · exact absurd isError fine
    · obtain ⟨fd, f, file, isFd, _, _, _, type, off, tables⟩ := opens
      have atFile : s'.tables.files f = file := by
        rw [tables]
        exact setFile_self ..
      refine ⟨fd, f, isFd, ?_, ?_, ?_⟩
      · rw [tables]
        exact setOfile_self ..
      · rw [atFile]
        exact type
      · rw [atFile]
        exact off

/-- A system whose free slots have kept an offset. -/
def staleSystem : State (Finset Nat) :=
  { freshSystem with
    tables := { freshSystem.tables with
      files := fun _ => ⟨.none, 0, true, true, 7, 7, 4096, 2⟩ } }

theorem opens_in_freshSystem
    : ∃ s', (Action.open freshSystem.tables.initproc 0 0).run easyWorld freshSystem
      = .ok (.returned 0, s') := by
  have outcome : (((Action.open freshSystem.tables.initproc 0 0).run easyWorld
      freshSystem).toOption.map Prod.fst) = some (.returned 0) := by
    decide +kernel
  cases run : (Action.open freshSystem.tables.initproc 0 0).run easyWorld freshSystem with
  | error e =>
    rw [run] at outcome
    cases outcome
  | ok result =>
    rw [run] at outcome
    exact ⟨result.2, by rw [← Option.some.inj outcome]⟩

/-- Witness: a file that is opened in the two systems. -/
theorem stale_slot_opens_alike
    : ∃ s', Run (Step easyWorld) freshSystem
          [((.open freshSystem.tables.initproc 0 0, .returned 0), freshSystem)] s'
        ∧ ∃ later t', Run (Step easyWorld) staleSystem later t'
          ∧ later.map Prod.fst = [(.open freshSystem.tables.initproc 0 0, .returned 0)]
          ∧ SameEffects s' t' := by
  obtain ⟨s', made⟩ := opens_in_freshSystem
  have run : Run (Step easyWorld) freshSystem
      [((.open freshSystem.tables.initproc 0 0, .returned 0), freshSystem)] s' :=
    .next .nil ⟨⟨rfl, rfl⟩, made⟩
  have alike : Alike freshSystem.tables staleSystem.tables :=
    ⟨fun _ => .inr ⟨⟨rfl, rfl⟩, ⟨rfl, rfl⟩⟩, rfl, rfl, rfl, rfl, rfl⟩
  obtain ⟨later, t', run', same, effects, _⟩ :=
    (free_slots_carry_nothing freshSystem_booted Finset.coe_empty .nil alike rfl).1 _ s' run
  exact ⟨s', run, later, t', run', same, effects⟩

end Xv6.Files
