import Xv6.Files.Exactness

/-! `O_NOFOLLOW` on paths that are no symbolic links. `sys_open` tests the bit only for links, but
it compares the whole mode with `O_RDONLY` for directories.
-/

namespace Xv6.Files

open Library

variable {W : Type} {k : World W} {s s' : State W} {p : Proc} {path : BitVec 64} {m : BitVec 32}

/-- The first turn of the loop of `sys_open`: the inode of the path, locked, and its type. -/
def firstLookup (k : World W) (p : Proc) (path : BitVec 64)
    : Sys W (Option (Nat × BitVec 16)) := do
  match ← call k (.argstr p path) with
  | none => return none
  | some path =>
    call k .beginOp
    match ← call k (.namei p path) with
    | none =>
      call k .endOp
      return none
    | some ip =>
      call k (.ilock ip)
      let type ← call k (.type ip)
      return some (ip, type)

/-- `sys_open` from there on, when the inode is not a link. -/
def openFound (k : World W) (p : Proc) (omode : BitVec 32)
    : Option (Nat × BitVec 16) → Sys W Int
  | none => return -1
  | some (ip, _) => do
    let type ← call k (.type ip)
    if type = T_DIR ∧ omode ≠ O_RDONLY then
      putAndEnd k ip
      return -1
    else
      openFile k p ip omode

/-- The path does not name a symbolic link. -/
def NamesNoLink (k : World W) (p : Proc) (path : BitVec 64) (s : State W) : Prop :=
  ∀ ip type s', firstLookup k p path s = .ok (some (ip, type), s') → type ≠ T_SYMLINK

/-- The path names a directory. -/
def NamesDirectory (k : World W) (p : Proc) (path : BitVec 64) (s : State W) : Prop :=
  ∃ ip type s₁ s₂, firstLookup k p path s = .ok (some (ip, type), s₁)
    ∧ call k (.type ip) s₁ = .ok (T_DIR, s₂)

/-- The call has returned a descriptor. -/
def Opened : Except Panic (Int × State W) → Prop
  | .ok (fd, _) => 0 ≤ fd
  | .error _ => False

instance (result : Except Panic (Int × State W)) : Decidable (Opened result) := by
  cases result <;> dsimp only [Opened] <;> infer_instance

/-- The rest of the kernel takes a directory that is locked through an `open`: no operation panics,
and it stays a directory.
-/
def Steady (k : World W) (ip : Nat) (w : W) : Prop :=
  ∃ w₁ w₂ w₃ w₄ w₅ major, k.run (.setOps ip) w = .ok ((), w₁)
    ∧ k.run (.type ip) w₁ = .ok (T_DIR, w₂) ∧ k.run (.major ip) w₂ = .ok (major, w₃)
    ∧ k.run (.iunlock ip) w₃ = .ok ((), w₄) ∧ k.run .endOp w₄ = .ok ((), w₅)

/-- A directory that the path names is `Steady`. -/
def StaysDirectory (k : World W) (p : Proc) (path : BitVec 64) (s : State W) : Prop :=
  ∀ ip type s₁ s₂, firstLookup k p path s = .ok (some (ip, type), s₁)
    → call k (.type ip) s₁ = .ok (T_DIR, s₂) → Steady k ip s₂.world

/-- There are a file and a descriptor for one more `open`. -/
def Tables.HasRoom (t : Tables) (p : Proc) : Prop :=
  (∃ f, (t.files f).ref = 0) ∧ ∃ fd, t.ofile p fd = none

/-- Both calls succeed or none does, and what they leave is the same: the file with its inode and
its rights, and the inode.
-/
def SameOpen (first second : Except Panic (Int × State W)) : Prop :=
  (Opened first ↔ Opened second) ∧ (Opened first → first = second)

theorem SameOpen.of_eq {first second : Except Panic (Int × State W)} (same : first = second)
    : SameOpen first second := by
  subst same
  exact ⟨Iff.rfl, fun _ => rfl⟩

-- The mode

/-- `O_NOFOLLOW` changes no other bit of the mode. -/
theorem nofollow_and (m : BitVec 32) {bit : BitVec 32} (other : O_NOFOLLOW &&& bit = 0)
    : (m ||| O_NOFOLLOW) &&& bit = m &&& bit := by
  rw [BitVec.and_or_distrib_right, other]
  exact BitVec.or_zero

/-- With `O_NOFOLLOW` the mode is never `O_RDONLY`, which open compares with as a whole. -/
theorem nofollow_ne_rdonly (m : BitVec 32) : m ||| O_NOFOLLOW ≠ O_RDONLY := by
  intro zero
  have bit := (BitVec.or_eq_zero_iff.mp zero).2
  exact absurd bit (by decide)

/-- The second part of `sys_open` does not look at the bit. -/
theorem openFile_nofollow (ip : Nat)
    : openFile k p ip (m ||| O_NOFOLLOW) = openFile k p ip m := by
  have opened (file : File) (type major : BitVec 16)
      : file.opened type major ip (m ||| O_NOFOLLOW) = file.opened type major ip m := by
    unfold File.opened
    rw [nofollow_and m (by decide), nofollow_and m (by decide)]
  have finish (type : BitVec 16) (fd : Fd)
      : finishOpen k ip type (m ||| O_NOFOLLOW) fd = finishOpen k ip type m fd := by
    unfold finishOpen
    rw [nofollow_and m (by decide)]
  unfold openFile
  simp only [opened, finish]

-- The lookup

theorem bind_congr_run {α β : Type} {code : Sys W α} {next next' : α → Sys W β}
    (rest : ∀ a s', code s = .ok (a, s') → next a s' = next' a s')
    : (code >>= next) s = (code >>= next') s := by
  cases run : code s with
  | error e => rw [bind_error run, bind_error run]
  | ok result =>
    obtain ⟨a, s'⟩ := result
    rw [bind_ok run, bind_ok run]
    exact rest a s' run

/-- Without `O_CREATE` and with no link at the name, open is the lookup and what follows it. -/
theorem sysOpen_found (noCreate : m &&& O_CREATE = 0) (noLink : NamesNoLink k p path s)
    : sysOpen k p path m s = (firstLookup k p path >>= openFound k p m) s := by
  unfold NamesNoLink at noLink
  unfold firstLookup at noLink ⊢
  rw [bind_assoc]
  refine bind_congr_run fun found s₁ read => ?_
  cases found with
  | none => rfl
  | some chars =>
    simp only [bind_assoc]
    refine bind_congr_run fun _ s₂ begun => ?_
    unfold openInode
    rw [if_neg (not_not.mpr noCreate)]
    unfold followLinks
    simp only [bind_assoc]
    refine bind_congr_run fun found s₃ named => ?_
    cases found with
    | none =>
      simp only [bind_assoc]
      exact bind_congr_run fun _ s₄ ended => rfl
    | some ip =>
      simp only [bind_assoc]
      refine bind_congr_run fun _ s₄ locked => ?_
      refine bind_congr_run fun type s₅ typed => ?_
      have isNoLink : type ≠ T_SYMLINK := by
        refine noLink ip type s₅ ?_
        rw [bind_ok read]
        dsimp only
        rw [bind_ok begun, bind_ok named]
        dsimp only
        rw [bind_ok locked, bind_ok typed]
        rfl
      rw [if_neg fun both => isNoLink both.1, if_pos isNoLink]
      simp only [pure_bind, bind_assoc]
      refine bind_congr_run fun type' s₆ again => ?_
      split_ifs
      · simp only [bind_assoc, pure_bind]
      · rfl

-- Two calls

theorem not_opened_bind {α : Type} {code : Sys W α} {next : α → Sys W Int}
    (fails : ∀ a s', ¬Opened (next a s'))
    : ¬Opened ((code >>= next) s) := by
  intro opened
  cases run : code s with
  | error e =>
    rw [bind_error run] at opened
    exact opened
  | ok result =>
    rw [bind_ok run] at opened
    exact fails _ _ opened

theorem not_opened_fails (s : State W) : ¬Opened ((return -1 : Sys W Int) s) :=
  fun opened => absurd (show (0 : Int) ≤ -1 from opened) (by decide)

/-- A path that puts the inode back and returns `-1` opens nothing. -/
theorem putAndEnd_not_opened (ip : Nat) (s : State W)
    : ¬Opened ((do putAndEnd k ip; return -1 : Sys W Int) s) :=
  not_opened_bind fun _ s' => not_opened_fails s'

theorem onlyCalls_firstLookup : OnlyCalls k (firstLookup k p path) := by
  refine (OnlyCalls.call rfl).option (.pure _) fun chars => ?_
  refine (OnlyCalls.call rfl).bind fun _ => ?_
  refine (OnlyCalls.call rfl).option ((OnlyCalls.call rfl).bind fun _ => .pure _) fun ip => ?_
  exact (OnlyCalls.call rfl).bind fun _ => (OnlyCalls.call rfl).bind fun _ => .pure _

theorem call_run {α : Type} {op : Op α} {a : α} {w : W} (run : k.run op s.world = .ok (a, w))
    : call k op s = .ok (a, { s with world := w }) := by
  rw [call, run]

theorem scan_none {size : Nat} {test : Fin size → Bool} (none : scan test = none) (i : Fin size)
    : test i = false :=
  Bool.eq_false_iff.mpr (List.find?_eq_none.mp none i (List.mem_finRange i))

theorem filealloc_run (s : State W) {found : Option Slot}
    (slot : (scan fun f => decide ((s.tables.files f).ref = 0)) = found)
    : filealloc s = .ok (found, found.elim s fun f =>
        { s with tables := s.tables.setFile f { s.tables.files f with ref := 1 } }) := by
  unfold filealloc
  rw [bind_ok (getTables_run s), slot]
  cases found <;> rfl

theorem fdalloc_run (s : State W) (p : Proc) (f : Slot) {found : Option Fd}
    (place : (scan fun fd => decide (s.tables.ofile p fd = none)) = found)
    : fdalloc p f s = .ok (found, found.elim s fun fd =>
        { s with tables := s.tables.setOfile p fd (some f) }) := by
  unfold fdalloc
  rw [bind_ok (getTables_run s), place]
  cases found <;> rfl

/-- The end of an `open` with `O_RDONLY` truncates nothing and returns the descriptor. -/
theorem finishOpen_run {ip : Nat} (type : BitVec 16) {fd : Fd} {w w' : W}
    (unlocked : k.run (.iunlock ip) s.world = .ok ((), w)) (ended : k.run .endOp w = .ok ((), w'))
    : finishOpen k ip type O_RDONLY fd s = .ok (fd, { s with world := w' }) := by
  have whole : ¬(O_RDONLY &&& O_TRUNC ≠ 0 ∧ type = T_FILE) := fun both => both.1 (by decide)
  unfold finishOpen
  dsimp only
  rw [if_neg whole, bind_ok (call_run unlocked), bind_ok (call_run ended)]
  rfl

/-- A directory is opened with `O_RDONLY` exactly when there is room. -/
theorem openFile_directory {ip : Nat} (steady : Steady k ip s.world)
    : Opened (openFile k p ip O_RDONLY s) ↔ s.tables.HasRoom p := by
  obtain ⟨w₁, w₂, w₃, w₄, w₅, major, set, typed, numbered, unlocked, ended⟩ := steady
  have noDevice (major : BitVec 16)
      : ¬(T_DIR = T_DEVICE ∧ (major.toInt < 0 ∨ (NDEV : Int) ≤ major.toInt)) :=
    fun both => absurd both.1 (by decide)
  unfold openFile
  rw [bind_ok (call_run set), bind_ok (call_run typed), bind_ok (call_run numbered),
    if_neg (noDevice major)]
  dsimp only
  cases slot : scan fun f => decide ((s.tables.files f).ref = 0) with
  | none =>
    rw [bind_ok (filealloc_run ⟨s.tables, w₃⟩ slot)]
    refine iff_of_false (putAndEnd_not_opened ip _) fun room => ?_
    obtain ⟨f, free⟩ := room.1
    exact of_decide_eq_false (scan_none slot f) free
  | some f =>
    rw [bind_ok (filealloc_run ⟨s.tables, w₃⟩ slot)]
    cases place : scan fun fd => decide (s.tables.ofile p fd = none) with
    | none =>
      simp only [Option.elim_some]
      rw [bind_ok (fdalloc_run ⟨s.tables.setFile f _, w₃⟩ p f place)]
      refine iff_of_false (not_opened_bind fun _ s' => putAndEnd_not_opened ip s') fun room => ?_
      obtain ⟨fd, free⟩ := room.2
      exact of_decide_eq_false (scan_none place fd) free
    | some fd =>
      simp only [Option.elim_some]
      rw [bind_ok (fdalloc_run ⟨s.tables.setFile f _, w₃⟩ p f place)]
      refine iff_of_true ?_
        ⟨⟨f, of_decide_eq_true (scan_some slot)⟩, fd, of_decide_eq_true (scan_some place)⟩
      dsimp only
      rw [bind_ok rfl, finishOpen_run T_DIR unlocked ended]
      exact Int.natCast_nonneg _

theorem SameOpen.failed_iff {first second : Except Panic (Int × State W)} (failed : ¬Opened first)
    : SameOpen first second ↔ ¬Opened second :=
  ⟨fun same opened => failed (same.1.mpr opened),
    fun other => ⟨iff_of_false failed other, fun opened => absurd opened failed⟩⟩

/-- `O_NOFOLLOW` changes the outcome only for a directory opened with `O_RDONLY`. -/
theorem openFound_nofollow {ip : Nat} {type type' : BitVec 16} {s₁ s₂ : State W}
    (typed : call k (.type ip) s₁ = .ok (type', s₂))
    (steady : type' = T_DIR → Steady k ip s₂.world)
    : SameOpen (openFound k p (m ||| O_NOFOLLOW) (some (ip, type)) s₁)
        (openFound k p m (some (ip, type)) s₁)
      ↔ ¬(m = O_RDONLY ∧ type' = T_DIR ∧ s₂.tables.HasRoom p) := by
  unfold openFound
  dsimp only
  rw [bind_ok typed, bind_ok typed]
  by_cases directory : type' = T_DIR
  · rw [if_pos ⟨directory, nofollow_ne_rdonly m⟩]
    by_cases plain : m = O_RDONLY
    · rw [SameOpen.failed_iff (putAndEnd_not_opened ip s₂), if_neg fun both => both.2 plain, plain,
        openFile_directory (steady directory)]
      simp [directory]
    · rw [if_pos ⟨directory, plain⟩]
      exact iff_of_true (.of_eq rfl) fun both => plain both.1
  · rw [if_neg fun both => directory both.1, if_neg fun both => directory both.1,
      openFile_nofollow]
    exact iff_of_true (.of_eq rfl) fun both => directory both.2.1

/-- `O_NOFOLLOW` makes no difference for a path that is no link, exactly unless the mode is
`O_RDONLY`, the path names a directory, and there are a file and a descriptor for it.
-/
theorem open_nofollow_iff (noLink : NamesNoLink k p path s) (stays : StaysDirectory k p path s)
    (m : BitVec 32)
    : SameOpen (sysOpen k p path (m ||| O_NOFOLLOW) s) (sysOpen k p path m s)
      ↔ ¬(m = O_RDONLY ∧ NamesDirectory k p path s ∧ s.tables.HasRoom p) := by
  have noBit : (m ||| O_NOFOLLOW) &&& O_CREATE = m &&& O_CREATE := nofollow_and m (by decide)
  by_cases create : m &&& O_CREATE = 0
  · rw [sysOpen_found (noBit.trans create) noLink, sysOpen_found create noLink]
    unfold NamesDirectory
    unfold StaysDirectory at stays
    have kept : Outside k (firstLookup k p path) := onlyCalls_firstLookup.outside
    cases looked : firstLookup k p path s with
    | error e =>
      rw [bind_error looked, bind_error looked]
      exact iff_of_true (.of_eq rfl) (by simp)
    | ok result =>
      obtain ⟨found, s₁⟩ := result
      rw [bind_ok looked, bind_ok looked]
      cases found with
      | none => exact iff_of_true (.of_eq rfl) (by simp)
      | some pair =>
        obtain ⟨ip, type⟩ := pair
        cases typed : call k (.type ip) s₁ with
        | error e =>
          refine iff_of_true (.of_eq ?_) ?_
          · unfold openFound
            dsimp only
            rw [bind_error typed, bind_error typed]
          · simp [typed]
        | ok result =>
          obtain ⟨type', s₂⟩ := result
          have same : s₂.tables = s.tables := by
            have first := kept s
            have second : Outside k (call k (.type ip)) := outside_call rfl
            have second := second s₁
            rw [Spec, looked] at first
            rw [Spec, typed] at second
            exact second.tables.trans first.tables
          have steady (directory : type' = T_DIR) : Steady k ip s₂.world :=
            stays ip type s₁ s₂ looked (directory ▸ typed)
          rw [openFound_nofollow typed steady, same]
          simp [typed]
  · -- `create` takes no mode, and a mode with the bit is not `O_RDONLY`
    have same (chars : Path) : openInode k p chars (m ||| O_NOFOLLOW) = openInode k p chars m := by
      unfold openInode
      rw [noBit, if_pos create, if_pos create]
    refine iff_of_true (.of_eq ?_) ?_
    · unfold sysOpen
      simp only [same, openFile_nofollow]
    · rintro ⟨rfl, _⟩
      exact create (by decide)

/-- A kernel whose only inode is a directory. -/
def directoryRun : {α : Type} → Op α → Finset Nat → Except String (α × Finset Nat)
  | _, .type _, pages => .ok (T_DIR, pages)
  | _, op, pages => easyRun op pages

theorem directoryRun_kept {α : Type} {op : Op α} {a : α} {w w' : Finset Nat}
    (other : op.allocates = false) (run : directoryRun op w = .ok (a, w'))
    : (w' : Set Nat) = (w : Set Nat) := by
  cases op <;> cases run <;> first | rfl | cases other

def directoryWorld : World (Finset Nat) where
  run := directoryRun
  held := fun pages => pages
  kalloc_some := easyRun_kalloc_some
  kalloc_none := easyRun_kalloc_none
  kfree := easyRun_kfree
  kept := directoryRun_kept

/-- A directory can be opened with `O_RDONLY`, but not with `O_RDONLY | O_NOFOLLOW`. -/
theorem nofollow_fails_on_a_directory
    : NamesNoLink directoryWorld firstProc 0 freshSystem
      ∧ O_RDONLY &&& O_NOFOLLOW = 0
      ∧ Opened (sysOpen directoryWorld firstProc 0 O_RDONLY freshSystem)
      ∧ ¬Opened (sysOpen directoryWorld firstProc 0 (O_RDONLY ||| O_NOFOLLOW) freshSystem) := by
  refine ⟨?_, by decide, by decide +kernel, by decide +kernel⟩
  intro ip type s' found
  cases found
  decide

/-- A file is opened alike with both modes. -/
theorem nofollow_opens_a_file
    : Opened (sysOpen easyWorld firstProc 0 (O_RDWR ||| O_NOFOLLOW) freshSystem)
      ∧ SameOpen (sysOpen easyWorld firstProc 0 (O_RDWR ||| O_NOFOLLOW) freshSystem)
          (sysOpen easyWorld firstProc 0 O_RDWR freshSystem) := by
  refine ⟨by decide +kernel, (open_nofollow_iff ?_ ?_ O_RDWR).mpr ?_⟩
  · intro ip type s' found
    cases found
    decide
  · intro ip type s₁ s₂ found
    cases found
    exact fun typed =>
      absurd (Prod.ext_iff.mp (Except.ok.inj typed)).1 (by decide : T_FILE ≠ T_DIR)
  · rintro ⟨plain, _⟩
    exact absurd plain (by decide)

end Xv6.Files
