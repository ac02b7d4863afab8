import Xv6.Library.BitField
import Xv6.Param

/-! File-system code as programs over disk blocks. `kernel/fs.c` and `kernel/log.c` touch the
disk only through the calls of `kernel/bio.c` and `log_write`; a program records these calls
and runs on a block store. The buffers that a commit uses are in `Xv6.Disk.Commit`.
-/

namespace Xv6.Disk

open Function

/-- The `8 * BSIZE` bits of a block, least significant byte first. -/
abbrev Block := BitVec 8192

/-- The calls a piece of file-system code makes. A locked buffer is named by its block
number: `setData` is an assignment to `b->data` between `bread` and `brelse`. `readLh` and
`setLh` access `log.lh`, whose length is the field `n`.
-/
inductive Prog (α : Type) where
  | done (value : α)
  | bread (blockno : Nat) (next : Block → Prog α)
  | setData (blockno : Nat) (data : Block) (next : Prog α)
  | bwrite (blockno : Nat) (next : Prog α)
  | brelse (blockno : Nat) (next : Prog α)
  | bunpin (blockno : Nat) (next : Prog α)
  | logWrite (blockno : Nat) (next : Prog α)
  | readLh (next : List Nat → Prog α)
  | setLh (blocks : List Nat) (next : Prog α)
  | panic (message : String)

namespace Prog

variable {α β : Type}

/-- Runs `next` on the value the first program returns. -/
def bind : Prog α → (α → Prog β) → Prog β
  | done value, next => next value
  | bread blockno k, next => bread blockno (fun data => (k data).bind next)
  | setData blockno data k, next => setData blockno data (k.bind next)
  | bwrite blockno k, next => bwrite blockno (k.bind next)
  | brelse blockno k, next => brelse blockno (k.bind next)
  | bunpin blockno k, next => bunpin blockno (k.bind next)
  | logWrite blockno k, next => logWrite blockno (k.bind next)
  | readLh k, next => readLh (fun blocks => (k blocks).bind next)
  | setLh blocks k, next => setLh blocks (k.bind next)
  | panic message, _ => panic message

instance : Monad Prog where
  pure := done
  bind := bind

end Prog

def bread (blockno : Nat) : Prog Block := .bread blockno .done
def setData (blockno : Nat) (data : Block) : Prog Unit := .setData blockno data (.done ())
def bwrite (blockno : Nat) : Prog Unit := .bwrite blockno (.done ())
def brelse (blockno : Nat) : Prog Unit := .brelse blockno (.done ())
def bunpin (blockno : Nat) : Prog Unit := .bunpin blockno (.done ())
def logWrite (blockno : Nat) : Prog Unit := .logWrite blockno (.done ())
def readLh : Prog (List Nat) := .readLh .done
def setLh (blocks : List Nat) : Prog Unit := .setLh blocks (.done ())
def panicWith {α : Type} (message : String) : Prog α := .panic message

-- Programs on a block store

/-- The disk, the contents that `bread` returns for each block (the cached copy where there
is one), and the block numbers of `log.lh`.
-/
structure Store where
  disk : Nat → Block
  view : Nat → Block
  lh : List Nat

/-- Log absorption: a block is recorded once for each transaction. -/
def absorb (lh : List Nat) (blockno : Nat) : List Nat :=
  if blockno ∈ lh then lh else lh ++ [blockno]

namespace Prog

variable {α β : Type} {value : α}

/-- Runs a program on a block store that never evicts. Room in the log and in the buffer
cache is the matter of the cache's own semantics.
-/
def run : Prog α → Store → Except String (α × Store)
  | done value, s => .ok (value, s)
  | bread blockno k, s => (k (s.view blockno)).run s
  | setData blockno data k, s =>
    k.run { s with view := update s.view blockno data }
  | bwrite blockno k, s =>
    k.run { s with disk := update s.disk blockno (s.view blockno) }
  | brelse _ k, s => k.run s
  | bunpin _ k, s => k.run s
  | logWrite blockno k, s => k.run { s with lh := absorb s.lh blockno }
  | readLh k, s => (k s.lh).run s
  | setLh blocks k, s => k.run { s with lh := blocks }
  | panic message, _ => .error message

/-- The disk writes of the program, in order. -/
def writes : Prog α → Store → List (Nat × Block)
  | done _, _ => []
  | bread blockno k, s => (k (s.view blockno)).writes s
  | setData blockno data k, s =>
    k.writes { s with view := update s.view blockno data }
  | bwrite blockno k, s =>
    (blockno, s.view blockno)
      :: k.writes { s with disk := update s.disk blockno (s.view blockno) }
  | brelse _ k, s => k.writes s
  | bunpin _ k, s => k.writes s
  | logWrite blockno k, s => k.writes { s with lh := absorb s.lh blockno }
  | readLh k, s => (k s.lh).writes s
  | setLh blocks k, s => k.writes { s with lh := blocks }
  | panic _, _ => []

@[simp] theorem run_pure (value : α) (s : Store)
    : (pure value : Prog α).run s = .ok (value, s) := rfl

@[simp] theorem writes_pure (value : α) (s : Store)
    : (pure value : Prog α).writes s = [] := rfl

/-- A sequence of programs runs the second one where the first one ended. -/
theorem run_bind (p : Prog α) (next : α → Prog β) (s : Store)
    : (p >>= next).run s
      = match p.run s with
        | .ok (value, s') => (next value).run s'
        | .error message => .error message := by
  induction p generalizing s with
  | done value => rfl
  | bread blockno k ih => exact ih _ s
  | setData blockno data k ih => exact ih _
  | bwrite blockno k ih => exact ih _
  | brelse blockno k ih => exact ih s
  | bunpin blockno k ih => exact ih s
  | logWrite blockno k ih => exact ih _
  | readLh k ih => exact ih _ s
  | setLh blocks k ih => exact ih _
  | panic message => rfl

/-- The writes of a sequence are those of the first program, then those of the second. -/
theorem writes_bind (p : Prog α) (next : α → Prog β) (s : Store)
    : (p >>= next).writes s
      = p.writes s
        ++ match p.run s with
          | .ok (value, s') => (next value).writes s'
          | .error _ => [] := by
  induction p generalizing s with
  | done value => rfl
  | bread blockno k ih => exact ih _ s
  | setData blockno data k ih => exact ih _
  | bwrite blockno k ih =>
    exact congrArg _ (ih _)
  | brelse blockno k ih => exact ih s
  | bunpin blockno k ih => exact ih s
  | logWrite blockno k ih => exact ih _
  | readLh k ih => exact ih _ s
  | setLh blocks k ih => exact ih _
  | panic message => rfl

/-- A program after one that has returned. -/
theorem run_bind_ok {p : Prog α} {next : α → Prog β} {s s' : Store}
    (first : p.run s = .ok (value, s'))
    : (p >>= next).run s = (next value).run s' := by
  rw [run_bind, first]

/-- The writes of both, one after the other. -/
theorem writes_bind_ok {p : Prog α} {next : α → Prog β} {s s' : Store}
    (first : p.run s = .ok (value, s'))
    : (p >>= next).writes s = p.writes s ++ (next value).writes s' := by
  rw [writes_bind, first]

end Prog

section

variable (blockno : Nat) (s : Store)

@[simp] theorem run_bread : (bread blockno).run s = .ok (s.view blockno, s) := rfl

/-- An assignment to `b->data` is seen by later readers. -/
@[simp] theorem run_setData (data : Block)
    : (setData blockno data).run s
      = .ok ((), { s with view := update s.view blockno data }) := rfl

/-- Only `bwrite` reaches the disk. -/
@[simp] theorem run_bwrite
    : (bwrite blockno).run s
      = .ok ((), { s with disk := update s.disk blockno (s.view blockno) }) := rfl

@[simp] theorem run_brelse : (brelse blockno).run s = .ok ((), s) := rfl

@[simp] theorem run_bunpin : (bunpin blockno).run s = .ok ((), s) := rfl

/-- `log_write` records the block, once. -/
@[simp] theorem run_logWrite
    : (logWrite blockno).run s = .ok ((), { s with lh := absorb s.lh blockno }) := rfl

@[simp] theorem run_readLh : readLh.run s = .ok (s.lh, s) := rfl

@[simp] theorem run_setLh (blocks : List Nat)
    : (setLh blocks).run s = .ok ((), { s with lh := blocks }) := rfl

@[simp] theorem writes_bread : (bread blockno).writes s = [] := rfl

@[simp] theorem writes_setData (data : Block) : (setData blockno data).writes s = [] := rfl

@[simp] theorem writes_bwrite : (bwrite blockno).writes s = [(blockno, s.view blockno)] := rfl

@[simp] theorem writes_brelse : (brelse blockno).writes s = [] := rfl

@[simp] theorem writes_bunpin : (bunpin blockno).writes s = [] := rfl

@[simp] theorem writes_logWrite : (logWrite blockno).writes s = [] := rfl

@[simp] theorem writes_readLh : readLh.writes s = [] := rfl

@[simp] theorem writes_setLh (blocks : List Nat) : (setLh blocks).writes s = [] := rfl

end

-- Crashes between two block writes

/-- The disk after a list of block writes. -/
def applyWrites (writes : List (Nat × Block)) (disk : Nat → Block) : Nat → Block :=
  writes.foldl (fun disk write => update disk write.1 write.2) disk

@[simp] theorem applyWrites_nil (disk : Nat → Block) : applyWrites [] disk = disk := rfl

@[simp] theorem applyWrites_cons (write : Nat × Block) (rest : List (Nat × Block))
    (disk : Nat → Block)
    : applyWrites (write :: rest) disk
      = applyWrites rest (update disk write.1 write.2) := rfl

/-- Writes are applied in order. -/
theorem applyWrites_append (first second : List (Nat × Block)) (disk : Nat → Block)
    : applyWrites (first ++ second) disk = applyWrites second (applyWrites first disk) :=
  List.foldl_append

/-- A block that no write is for stays. -/
theorem applyWrites_other {writes : List (Nat × Block)} {blockno : Nat}
    (absent : ∀ write ∈ writes, write.1 ≠ blockno) (disk : Nat → Block)
    : applyWrites writes disk blockno = disk blockno := by
  induction writes generalizing disk with
  | nil => rfl
  | cons write rest ih =>
    rw [applyWrites_cons, ih (fun later member => absent later (List.mem_cons_of_mem _ member))]
    exact update_of_ne (absent write (List.mem_cons_self)).symm _ _

/-- The disk changes through `bwrite` alone, so a completed program leaves exactly the
effect of its writes.
-/
theorem Prog.run_disk {α : Type} {p : Prog α} {s s' : Store} {value : α}
    (completed : p.run s = .ok (value, s'))
    : s'.disk = applyWrites (p.writes s) s.disk := by
  induction p generalizing s with
  | done value =>
    cases completed
    rfl
  | bread blockno k ih => exact ih _ completed
  | setData blockno data k ih => exact ih completed
  | bwrite blockno k ih =>
    exact ih completed
  | brelse blockno k ih => exact ih completed
  | bunpin blockno k ih => exact ih completed
  | logWrite blockno k ih => exact ih completed
  | readLh k ih => exact ih _ completed
  | setLh blocks k ih => exact ih completed
  | panic message => cases completed

/-- The disk a crash leaves after `count` block writes of the program have completed. -/
def Prog.crashAfter {α : Type} (p : Prog α) (s : Store) (count : Nat) : Nat → Block :=
  applyWrites ((p.writes s).take count) s.disk

/-- The store after a reboot: nothing is cached and the log header is empty. -/
def Store.boot (disk : Nat → Block) : Store where
  disk := disk
  view := disk
  lh := []

-- Programs that return: what holds of the value and of the store they leave, in particular when
-- they only read.

variable {post : Unit → Store → Prop}

namespace Prog

variable {α β : Type} {p : Prog α} {s : Store} {post post' : α → Store → Prop}
variable {value : α} {next : α → Prog β}

/-- The program does not panic, and leaves a value and a store as described. -/
def Returns (p : Prog α) (s : Store) (post : α → Store → Prop) : Prop :=
  ∃ value s', p.run s = .ok (value, s') ∧ post value s'

instance (p : Prog α) (s : Store) (post : α → Store → Prop)
    [∀ value s', Decidable (post value s')]
    : Decidable (p.Returns s post) :=
  match run : p.run s with
  | .ok (value, s') =>
    if holds : post value s' then .isTrue ⟨value, s', run, holds⟩
    else .isFalse fun ⟨_, _, run', holds'⟩ => by
      cases run.symm.trans run'
      exact holds holds'
  | .error _ => .isFalse fun ⟨_, _, run', _⟩ => by cases run.symm.trans run'

/-- A weaker postcondition. -/
theorem Returns.mono (returns : p.Returns s post)
    (weaker : ∀ value s', post value s' → post' value s')
    : p.Returns s post' := by
  obtain ⟨value, s', run, holds⟩ := returns
  exact ⟨value, s', run, weaker value s' holds⟩

/-- Two postconditions of one run. -/
theorem Returns.and (returns : p.Returns s post) (also : p.Returns s post')
    : p.Returns s (fun value s' => post value s' ∧ post' value s') := by
  obtain ⟨value, s', run, holds⟩ := returns
  obtain ⟨_, _, run', holds'⟩ := also
  cases run.symm.trans run'
  exact ⟨value, s', run, holds, holds'⟩

/-- A known run decides the postcondition. -/
theorem returns_of_run {s' : Store} (run : p.run s = .ok (value, s'))
    : p.Returns s post ↔ post value s' := by
  constructor
  · rintro ⟨_, _, run', holds⟩
    cases run.symm.trans run'
    exact holds
  · exact fun holds => ⟨value, s', run, holds⟩

/-- A sequence returns when its first part returns to a store from which the rest does. -/
theorem returns_bind {post : β → Store → Prop}
    : (p >>= next).Returns s post ↔ p.Returns s fun value s' => (next value).Returns s' post := by
  constructor
  · rintro ⟨value, s', run, holds⟩
    rw [run_bind] at run
    cases first : p.run s with
    | error message =>
      rw [first] at run
      cases run
    | ok result =>
      rw [first] at run
      exact ⟨result.1, result.2, first, value, s', run, holds⟩
  · rintro ⟨first, middle, run, value, s', rest, holds⟩
    exact ⟨value, s', (run_bind_ok run).trans rest, holds⟩

/-- The rule for sequences: the rest starts where the first part ends. -/
theorem Returns.bind {post' : β → Store → Prop} (returns : p.Returns s post)
    (rest : ∀ value s', post value s' → (next value).Returns s' post')
    : (p >>= next).Returns s post' :=
  returns_bind.mpr (returns.mono rest)

@[simp] theorem returns_pure : (pure value : Prog α).Returns s post ↔ post value s :=
  returns_of_run (run_pure value s)

/-- If the program does not panic, it leaves a value and a store as described. -/
def Ensures (p : Prog α) (s : Store) (post : α → Store → Prop) : Prop :=
  ∀ value s', p.run s = .ok (value, s') → post value s'

/-- What returns also ensures. -/
theorem Returns.ensures (returns : p.Returns s post) : p.Ensures s post := by
  obtain ⟨value, s', run, holds⟩ := returns
  intro value' s'' run'
  cases run.symm.trans run'
  exact holds

/-- A weaker postcondition, for programs that may panic. -/
theorem Ensures.mono (ensures : p.Ensures s post)
    (weaker : ∀ value s', post value s' → post' value s')
    : p.Ensures s post' :=
  fun value s' run => weaker value s' (ensures value s' run)

/-- The rule for sequences, for programs that may panic. -/
theorem Ensures.bind {post' : β → Store → Prop} (ensures : p.Ensures s post)
    (rest : ∀ value s', post value s' → (next value).Ensures s' post')
    : (p >>= next).Ensures s post' := by
  intro value s' run
  rw [run_bind] at run
  cases first : p.run s with
  | error message =>
    rw [first] at run
    cases run
  | ok result =>
    rw [first] at run
    exact rest result.1 result.2 (ensures _ _ first) value s' run

theorem ensures_pure (holds : post value s) : (pure value : Prog α).Ensures s post :=
  (returns_pure.mpr holds).ensures

/-- A panic ensures everything. -/
theorem ensures_panic {message : String} : (panicWith message : Prog α).Ensures s post :=
  fun _ _ run => by cases run

end Prog

variable {s : Store} {blockno : Nat}

/-- The rules for single calls follow. -/
@[simp] theorem returns_bread {post : Block → Store → Prop}
    : (bread blockno).Returns s post ↔ post (s.view blockno) s :=
  Prog.returns_of_run (run_bread blockno s)

@[simp] theorem returns_setData {data : Block}
    : (setData blockno data).Returns s post
      ↔ post () { s with view := Function.update s.view blockno data } :=
  Prog.returns_of_run (run_setData blockno s data)

@[simp] theorem returns_brelse
    : (brelse blockno).Returns s post ↔ post () s :=
  Prog.returns_of_run (run_brelse blockno s)

@[simp] theorem returns_logWrite
    : (logWrite blockno).Returns s post ↔ post () { s with lh := absorb s.lh blockno } :=
  Prog.returns_of_run (run_logWrite blockno s)

-- Programs that only read

namespace Prog

variable {α β : Type} {p : Prog α} {next : α → Prog β} {value : α}

/-- The value of a program that only reads. -/
def peek (view : Nat → Block) : Prog α → Option α
  | .done value => some value
  | .bread blockno k => (k (view blockno)).peek view
  | .brelse _ k => k.peek view
  | .setData .. | .bwrite .. | .bunpin .. | .logWrite .. | .readLh .. | .setLh .. | .panic _ => none

variable {view : Nat → Block}

@[simp] theorem peek_pure (value : α) : (pure value : Prog α).peek view = some value := rfl

/-- Reading programs in sequence. -/
theorem peek_bind (p : Prog α) (next : α → Prog β)
    : (p >>= next).peek view = (p.peek view).bind fun value => (next value).peek view := by
  induction p with
  | done value => rfl
  | bread blockno k ih => exact ih _
  | brelse blockno k ih => exact ih
  | setData blockno data k ih | bwrite blockno k ih | bunpin blockno k ih | logWrite blockno k ih
  | readLh k ih | setLh blocks k ih | panic message => rfl

theorem peek_bind_some (first : p.peek view = some value)
    : (p >>= next).peek view = (next value).peek view := by
  rw [peek_bind, first, Option.bind_some]

/-- A program that only reads leaves the store, by induction on its calls. -/
theorem run_of_peek (reads : p.peek s.view = some value)
    : p.run s = .ok (value, s) := by
  induction p with
  | done v =>
    cases reads
    rfl
  | bread blockno k ih => exact ih _ reads
  | brelse blockno k ih => exact ih reads
  | setData blockno data k ih | bwrite blockno k ih | bunpin blockno k ih | logWrite blockno k ih
  | readLh k ih | setLh blocks k ih | panic message => cases reads

/-- A reading part is replaced by the value it reads. -/
theorem returns_peek {post : β → Store → Prop} (reads : p.peek s.view = some value)
    (rest : (next value).Returns s post)
    : (p >>= next).Returns s post :=
  returns_bind.mpr ⟨value, s, run_of_peek reads, rest⟩

/-- The same for programs that may panic. -/
theorem ensures_peek {post : β → Store → Prop} (reads : p.peek s.view = some value)
    (rest : (next value).Ensures s post)
    : (p >>= next).Ensures s post :=
  fun result s' run => rest result s' ((run_bind_ok (run_of_peek reads)).symm.trans run)

end Prog

@[simp] theorem peek_bread {view : Nat → Block}
    : (bread blockno).peek view = some (view blockno) := rfl

@[simp] theorem peek_brelse {view : Nat → Block}
    : (brelse blockno).peek view = some () := rfl

end Xv6.Disk
