import Xv6.Vm.ExecSpec

/-! Runs of the machine in which processes also call `kexec`, and what `kexec` does in the states
that they reach: all or nothing, and a faithful stack.
-/

namespace Xv6.Vm

open Library
open Process (Slot)

variable {layout : Layout} {m : Machine} {p : Slot}

/-- A step of the machine with its outcome, or a process that calls `kexec`. -/
inductive Event where
  | act (action : Action) (outcome : Outcome)
  | exec (p : Slot) (path : List (BitVec 8)) (file : Option (List (BitVec 8))) (argv : ArgVector)
    (result : Option Nat)

def Moves (layout : Layout) (m : Machine) (event : Event) (m' : Machine) : Prop :=
  match event with
  | .act action outcome => Step layout m (action, outcome) m'
  | .exec p path file argv result =>
    (m.proc p).status = .live
      ∧ ∃ names after, kexec layout p path file argv.strings ⟨m, names, 0, 0, 0, false⟩
          = .ok (result, after)
        ∧ after.machine = m'

/-- The machine has come here from `kinit`. -/
def Reached (layout : Layout) (m : Machine) : Prop :=
  ∃ mem start history, boot layout mem = .ok start ∧ Run (Moves layout) start history m

theorem live_used (live : (m.proc p).status = .live) : (m.proc p).status ≠ .unused := by
  rw [live]
  simp

/-- Every event keeps the account of all pages. -/
theorem moves_custody {m' : Machine} {event : Event}
    (before : ∃ g loose, Custody layout m g loose) (taken : Moves layout m event m')
    : ∃ g loose, Custody layout m' g loose := by
  obtain ⟨g, loose, custody⟩ := before
  cases event with
  | act action outcome =>
    obtain ⟨g', loose', stepped⟩ := custody.stepped taken
    exact ⟨g', loose', stepped.custody⟩
  | exec p path file argv result =>
    obtain ⟨live, names, after, ran, rfl⟩ := taken
    obtain ⟨ready, ends⟩ := custody.kexec (live_used live) path file names 0 0 0
    obtain ⟨result', m', names', g', ran', custody', _⟩ := ends argv
    cases ran.symm.trans ran'
    exact ⟨g', loose, custody'⟩

theorem Reached.custody (reached : Reached layout m) : ∃ g loose, Custody layout m g loose := by
  obtain ⟨mem, start, history, booted, run⟩ := reached
  obtain ⟨phys, boots, custody, _⟩ := boot_custody layout mem
  cases boots.symm.trans booted
  have any : EachStep (fun _ _ => True) history := fun _ _ => trivial
  exact run.invariant ⟨_, _, custody⟩ (fun _ _ _ before _ taken => moves_custody before taken) any

theorem reached_of_steps {mem : Nat → Page} {start : Machine}
    {history : List ((Action × Outcome) × Machine)} (booted : boot layout mem = .ok start)
    (run : Run (Step layout) start history m)
    : Reached layout m := by
  refine ⟨mem, start, history.map fun entry => (.act entry.1.1 entry.1.2, entry.2), booted, ?_⟩
  induction run with
  | nil => exact .nil
  | next _ taken ih => exact ih.next taken

-- All or nothing

/-- The trapframe is one of the pages in use. -/
theorem Custody.trapframe_kept {g : Ghost Slot} {loose : Nat → Nat}
    (custody : Custody layout m g loose) (used : (m.proc p).status ≠ .unused) {m' : Machine}
    (same : SameUse layout m m') (i : Nat)
    : m'.trapWord p i = m.trapWord p i := by
  obtain ⟨t, isFrame, ram⟩ := ((custody.seats p).space used).trapframe
  obtain ⟨_, held⟩ := custody.trapframe_held ram.positive isFrame
  have page : IsPage layout (4096 * t) := ⟨Nat.mul_mod_right 4096 t, ram.1, ram.2⟩
  have taken : 4096 * t ∉ m.phys.freelist := by
    have data := custody.inv.held_data held
    have listed := custody.inv.accounts.free.count_eq t
    rw [data] at listed
    exact List.count_eq_zero.mp listed
  simp only [Machine.trapWord, same.proc, isFrame]
  rw [same.contents _ page taken]

/-- `kexec` returns without a panic, with one `end_op` and without the inode, whatever the file,
the arguments and the free memory are. A failure leaves the process, its name and every page as
they were; a success releases the old image.
-/
theorem kexec_all_or_nothing (reached : Reached layout m) (live : (m.proc p).status = .live)
    (path : List (BitVec 8)) (file : Option (List (BitVec 8))) (argv : ArgVector)
    (names : Slot → List (BitVec 8)) (begun ended refs : Nat)
    : ∃ result m' names',
        kexec layout p path file argv.strings ⟨m, names, begun, ended, refs, false⟩
          = .ok (result, ⟨m', names', begun + 1, ended + 1, refs, false⟩)
        ∧ (result = none
          → names' = names ∧ SameUse layout m m' ∧ ∀ i, m'.trapWord p i = m.trapWord p i)
        ∧ ∀ argc, result = some argc → argc = argv.strings.length ∧ Replaced layout p m m' := by
  obtain ⟨g, loose, custody⟩ := reached.custody
  obtain ⟨ready, ends⟩ := custody.kexec (live_used live) path file names begun ended refs
  obtain ⟨result, m', names', g', ran, _, ending⟩ := ends argv
  refine ⟨result, m', names', ran, ?_, ?_⟩
  · intro failed
    cases ending with
    | failed _ _ same => exact ⟨rfl, same, custody.trapframe_kept (live_used live) same⟩
    | done => cases failed
  · intro argc done
    cases ending with
    | failed => cases done
    | done _ _ _ _ _ _ replaced =>
      cases done
      exact ⟨rfl, replaced⟩

/-- An ELF file with one segment, of four bytes in the file and eight in memory. -/
def smallElf : List (BitVec 8) :=
  [0x7F, 0x45, 0x4C, 0x46] ++ List.replicate 28 0 ++ [64] ++ List.replicate 23 0 ++ [1]
    ++ List.replicate 7 0
    -- The program header: type, flags and offset, addresses, sizes, alignment.
    ++ [1, 0, 0, 0, 5, 0, 0, 0, 120] ++ List.replicate 23 0 ++ [4] ++ List.replicate 7 0 ++ [8]
    ++ List.replicate 15 0 ++ [0x13, 0, 0, 0]

/-- `/echo`. -/
def echoPath : List (BitVec 8) := [47, 101, 99, 104, 111]

/-- `echo hi`. -/
def twoArguments : ArgVector where
  strings := [[101, 99, 104, 111], [104, 105]]
  few := by decide
  short := by decide
  text := by decide

/-- Whether `kexec` of a file by process 0 gives the answer. -/
def execAnswers (layout : Layout) (file : List (BitVec 8)) (argv : List (List (BitVec 8)))
    (answer : Option Nat) (m : Machine) : Bool :=
  match kexec layout 0 echoPath (some file) argv ⟨m, fun _ => [], 0, 0, 0, false⟩ with
  | .error _ => false
  | .ok (result, _) => decide (result = answer)

theorem exec_of_answers {file : List (BitVec 8)} {argv : List (List (BitVec 8))}
    {answer : Option Nat} (answers : execAnswers layout file argv answer m = true)
    : ∃ after, kexec layout 0 echoPath (some file) argv ⟨m, fun _ => [], 0, 0, 0, false⟩
        = .ok (answer, after) := by
  unfold execAnswers at answers
  cases ran : kexec layout 0 echoPath (some file) argv ⟨m, fun _ => [], 0, 0, 0, false⟩ with
  | error message =>
    rw [ran] at answers
    cases answers
  | ok outcome =>
    rw [ran] at answers
    exact ⟨outcome.2, by rw [← of_decide_eq_true answers]⟩

theorem first_exec
    : ∃ m, Reached smallRam m ∧ (m.proc 0).status = .live
      ∧ execAnswers smallRam smallElf twoArguments.strings (some 2) m = true
      ∧ execAnswers smallRam [] twoArguments.strings none m = true := by
  obtain ⟨start, history, m, booted, run, passes⟩ := run_of_boot smallRam [.userinit]
    (fun _ m => (m.proc 0).status == .live
      && execAnswers smallRam smallElf twoArguments.strings (some 2) m
      && execAnswers smallRam [] twoArguments.strings none m) (by decide +kernel)
  rw [Bool.and_eq_true, Bool.and_eq_true, beq_iff_eq] at passes
  exact ⟨m, reached_of_steps booted run, passes.1.1, passes.1.2, passes.2⟩

theorem kexec_all_or_nothing_first
    : ∃ m m₁ m₂ names names₁ names₂, Reached smallRam m ∧ (m.proc 0).status = .live
      ∧ kexec smallRam 0 echoPath (some smallElf) twoArguments.strings ⟨m, names, 0, 0, 0, false⟩
        = .ok (some 2, ⟨m₁, names₁, 1, 1, 0, false⟩)
      ∧ Replaced smallRam 0 m m₁
      ∧ kexec smallRam 0 echoPath (some []) twoArguments.strings ⟨m, names, 0, 0, 0, false⟩
        = .ok (none, ⟨m₂, names₂, 1, 1, 0, false⟩)
      ∧ names₂ = names ∧ SameUse smallRam m m₂
      ∧ ∀ i, m₂.trapWord 0 i = m.trapWord 0 i := by
  obtain ⟨m, reached, live, succeeds, fails⟩ := first_exec
  obtain ⟨after₁, success⟩ := exec_of_answers succeeds
  obtain ⟨after₂, failure⟩ := exec_of_answers fails
  obtain ⟨result₁, m₁, names₁, ran₁, _, replaced⟩ := kexec_all_or_nothing reached live echoPath
    (some smallElf) twoArguments (fun _ => []) 0 0 0
  obtain ⟨result₂, m₂, names₂, ran₂, same, _⟩ := kexec_all_or_nothing reached live echoPath
    (some []) twoArguments (fun _ => []) 0 0 0
  cases success.symm.trans ran₁
  cases failure.symm.trans ran₂
  exact ⟨m, m₁, m₂, fun _ => [], names₁, names₂, reached, live, ran₁, (replaced 2 rfl).2, ran₂,
    same rfl⟩

-- The stack

def noArguments : ArgVector where
  strings := []
  few := by decide
  short := by decide
  text := by decide

/-- `kexec` succeeds with the given arguments. -/
def ExecSucceeds (layout : Layout) (p : Slot) (path : List (BitVec 8))
    (file : Option (List (BitVec 8))) (st : ExecState) (argv : ArgVector) : Prop :=
  ∃ argc after, kexec layout p path file argv.strings st = .ok (some argc, after)

/-- The stack of every new image has exactly the arguments. They are the reason for a failure, in
the sense that `kexec` succeeds without arguments, exactly when the aligned strings and the array
of pointers take more than the stack.
-/
theorem kexec_stack (reached : Reached layout m) (live : (m.proc p).status = .live)
    (path : List (BitVec 8)) (file : Option (List (BitVec 8))) (argv : ArgVector)
    (names : Slot → List (BitVec 8)) (begun ended refs : Nat)
    : (∀ argc after,
        kexec layout p path file argv.strings ⟨m, names, begun, ended, refs, false⟩
          = .ok (some argc, after)
        → argc = argv.strings.length
          ∧ ∃ sp ptrs, StackImage after.machine p argv.strings sp ptrs)
      ∧ (ExecSucceeds layout p path file ⟨m, names, begun, ended, refs, false⟩ argv
        ↔ ExecSucceeds layout p path file ⟨m, names, begun, ended, refs, false⟩ noArguments
          ∧ stackNeed argv.strings ≤ USERSTACK * PGSIZE) := by
  obtain ⟨g, loose, custody⟩ := reached.custody
  obtain ⟨ready, ends⟩ := custody.kexec (live_used live) path file names begun ended refs
  have succeeds (argv : ArgVector)
      : ExecSucceeds layout p path file ⟨m, names, begun, ended, refs, false⟩ argv
        ↔ ready = true ∧ stackNeed argv.strings ≤ USERSTACK * PGSIZE := by
    obtain ⟨result, m', names', g', ran, _, ending⟩ := ends argv
    cases ending with
    | failed m' reason _ =>
      refine iff_of_false ?_ ?_
      · rintro ⟨argc, after, success⟩
        cases success.symm.trans ran
      · rintro ⟨allowed, fits⟩
        rcases reason with unready | deep
        · rw [allowed] at unready
          cases unready
        · omega
    | done _ _ _ _ allowed fits _ _ => exact iff_of_true ⟨_, _, ran⟩ ⟨allowed, fits⟩
  refine ⟨fun argc after success => ?_, ?_⟩
  · obtain ⟨result, m', names', g', ran, _, ending⟩ := ends argv
    cases success.symm.trans ran
    cases ending with
    | done _ _ sp ptrs _ _ _ stack => exact ⟨rfl, sp, ptrs, stack⟩
  · have least : stackNeed noArguments.strings ≤ USERSTACK * PGSIZE := by decide
    rw [succeeds argv, succeeds noArguments]
    exact ⟨fun both => ⟨⟨both.1, least⟩, both.2⟩, fun both => ⟨both.1.1, both.2⟩⟩

theorem kexec_stack_first
    : ∃ m after names, Reached smallRam m ∧ (m.proc 0).status = .live
      ∧ kexec smallRam 0 echoPath (some smallElf) twoArguments.strings ⟨m, names, 0, 0, 0, false⟩
        = .ok (some 2, after)
      ∧ ∃ sp ptrs, StackImage after.machine 0 twoArguments.strings sp ptrs := by
  obtain ⟨m, reached, live, succeeds, _⟩ := first_exec
  obtain ⟨after, success⟩ := exec_of_answers succeeds
  obtain ⟨_, stack⟩ :=
    (kexec_stack reached live echoPath (some smallElf) twoArguments (fun _ => []) 0 0 0).1 2 after
      success
  exact ⟨m, after, fun _ => [], reached, live, success, stack⟩

end Xv6.Vm
