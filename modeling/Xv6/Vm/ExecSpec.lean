import Xv6.Vm.Replacement
import Xv6.Vm.StackSpec

/-! `kexec` from any state of the machine, with any file and any arguments: it returns, and the
process has its old image and nothing has changed, or it has the new image with the arguments on
its stack and the old image is released.
-/

namespace Xv6.Vm

open Function Library
open Process (Slot)

variable {layout : Layout} {m : Machine} {g : Ghost Slot} {loose : Nat → Nat} {p : Slot}
variable {s' : Phys} {pagetable sz pages : Nat}

-- Running code

theorem onMemory_ok {α : Type} {code : Kernel α} {st : ExecState} {result : α}
    (run : code st.machine.phys = .ok (result, s'))
    : onMachine (onPhys code) st
      = .ok (result, { st with machine := { st.machine with phys := s' } }) := by
  unfold onMachine
  rw [onPhys_ok run]

/-- What the label `bad` leaves of the memory. -/
def Discards (layout : Layout) (pagetable sz : Nat) (s s' : Phys) : Prop :=
  (pagetable = 0 ∧ s' = s)
    ∨ (pagetable ≠ 0 ∧ procFreepagetable layout pagetable sz s = .ok ((), s'))

theorem Discards.run {α : Type} {pagetable sz : Nat} {st : ExecState} {s' : Phys}
    (discards : Discards layout pagetable sz st.machine.phys s') (next : Unit → ExecM α)
    : (if pagetable ≠ 0
        then onMachine (onPhys (procFreepagetable layout pagetable sz)) >>= fun r => next r
        else next ()) st
      = next () { st with machine := { st.machine with phys := s' } } := by
  rcases discards with ⟨none, rfl⟩ | ⟨some, run⟩
  · rw [if_neg (not_not.mpr none)]
  · rw [if_pos some, bind_ok (onMemory_ok run)]

theorem bad_open {refs begun ended : Nat} {names : Slot → List (BitVec 8)}
    (discards : Discards layout pagetable sz m.phys s')
    : bad layout pagetable sz true ⟨m, names, begun, ended, refs + 1, true⟩
      = .ok (none, ⟨{ m with phys := s' }, names, begun, ended + 1, refs, false⟩) := by
  unfold bad
  exact (Discards.run discards _).trans rfl

theorem bad_closed {st : ExecState} (discards : Discards layout pagetable sz st.machine.phys s')
    : bad layout pagetable sz false st
      = .ok (none, { st with machine := { st.machine with phys := s' } }) := by
  unfold bad
  exact (Discards.run discards _).trans rfl

-- The new process

/-- The byte that user code reads at an address. -/
def Machine.userByte (m : Machine) (p : Slot) (va : Nat) : Option (BitVec 8) :=
  match m.pageAt p (va / 4096) with
  | none => none
  | some page => if page.user && page.read then some (page.content.byte (va % 4096)) else none

/-- User code finds the bytes from the given address on. -/
def Machine.HoldsAt (m : Machine) (p : Slot) (va : Nat) (bytes : List (BitVec 8)) : Prop :=
  ∀ k, k < bytes.length → m.userByte p (va + k) = some (bytes.getD k 0)

/-- A word of the trapframe of process `p`. -/
def Machine.trapWord (m : Machine) (p : Slot) (i : Nat) : BitVec 64 :=
  (m.phys.page (m.proc p).trapframe).entry i

/-- Where the stack of a process starts that `kexec` has made. -/
def Machine.stackbase (m : Machine) (p : Slot) : Nat := (m.proc p).sz - USERSTACK * PGSIZE

/-- The stack of process `p` has the arguments: the array of pointers at the stack pointer, and
above it the strings, at the places `ptrs`.
-/
structure StackImage (m : Machine) (p : Slot) (argv : List (List (BitVec 8))) (sp : Nat)
    (ptrs : List Nat) : Prop where
  pointer : m.trapWord p SP = BitVec.ofNat 64 sp ∧ m.trapWord p A1 = BitVec.ofNat 64 sp
  aligned : sp % 16 = 0
  inside : m.stackbase p ≤ sp ∧ sp < (m.proc p).sz
  count : ptrs.length = argv.length
  array : m.HoldsAt p sp ((ptrs ++ [0]).flatMap wordBytes)
  strings : ∀ i, i < argv.length → m.HoldsAt p (ptrs.getD i 0) (argv.getD i [] ++ [0])
  above : ∀ i, i < argv.length
    → sp + 8 * (argv.length + 1) ≤ ptrs.getD i 0
      ∧ ptrs.getD i 0 + (argv.getD i []).length + 1 ≤ (m.proc p).sz
  apart : ∀ i j, i < j → j < argv.length
    → ptrs.getD j 0 + (argv.getD j []).length + 1 ≤ ptrs.getD i 0
  guard : ∀ va, m.stackbase p - PGSIZE ≤ va → va < m.stackbase p
    → ∃ page, m.pageAt p (va / 4096) = some page ∧ page.user = false

theorem stackbase_of_size (size : (m.proc p).sz = 4096 * (pages + 2))
    : m.stackbase p = 4096 * (pages + 1) := by
  unfold Machine.stackbase
  rw [USERSTACK, PGSIZE]
  omega

/-- The page at `stackbase` has the arguments, in the record of the new image. -/
theorem stackImage_of_page {u : Ghost Unit} {mem : Nat → Page}
    {page : Page} (argv : ArgVector) (small : pages + 1 < userPages)
    (sees : ∀ v, v < userPages → m.pageAt p v = u.view mem () v)
    (size : (m.proc p).sz = 4096 * (pages + 2))
    (opened : Open u () (pages + 1) PTE_R) (content : mem (u.leaf () (pages + 1)).ppn = page)
    (guardValid : (u.leaf () pages).has PTE_V = true)
    (guardClosed : (u.leaf () pages).has PTE_U = false)
    (fits : stackNeed argv.strings ≤ 4096)
    (placed : Placed page (pages + 1) (4096 * (pages + 1) + 4096) argv.strings)
    (array : page.Holds (4096 - stackNeed argv.strings)
      ((pointers (4096 * (pages + 1) + 4096) argv.strings ++ [0]).flatMap wordBytes))
    (pointer : m.trapWord p SP
        = BitVec.ofNat 64 (4096 * (pages + 1) + 4096 - stackNeed argv.strings)
      ∧ m.trapWord p A1
        = BitVec.ofNat 64 (4096 * (pages + 1) + 4096 - stackNeed argv.strings))
    : StackImage m p argv.strings (4096 * (pages + 1) + 4096 - stackNeed argv.strings)
        (pointers (4096 * (pages + 1) + 4096) argv.strings) := by
  have stack : m.pageAt p (pages + 1) = some (.of page (u.leaf () (pages + 1))) := by
    rw [sees _ small, view_of_valid mem small opened.2.1, content]
  have reads (va : Nat) (inPage : va / 4096 = pages + 1)
      : m.userByte p va = some (page.byte (va % 4096)) := by
    rw [Machine.userByte, inPage, stack]
    simp only [View.of, opened.2.2.1, opened.2.2.2, Bool.and_self, if_true]
  have holds {offset : Nat} {bytes : List (BitVec 8)} (bound : offset + bytes.length ≤ 4096)
      (inside : page.Holds offset bytes)
      : m.HoldsAt p (4096 * (pages + 1) + offset) bytes := by
    intro k below
    rw [reads _ (by omega), ← inside k below]
    congr 2
    omega
  have split : stackNeed argv.strings
      = stackUse argv.strings + round16 ((argv.strings.length + 1) * 8) := rfl
  have rounded : 8 * (argv.strings.length + 1) ≤ round16 ((argv.strings.length + 1) * 8) := by
    simp only [round16]
    omega
  have multiple : stackNeed argv.strings % 16 = 0 := stackNeed_aligned argv.strings
  have between (i : Nat) (inside : i < argv.strings.length) :=
    pointers_between (by omega : stackUse argv.strings ≤ 4096 * (pages + 1) + 4096) inside
  have base := stackbase_of_size size
  refine ⟨pointer, by omega, ?_, pointers_length _ _, ?_, ?_, ?_, ?_, ?_⟩
  · rw [base, size]
    omega
  · have start : 4096 * (pages + 1) + 4096 - stackNeed argv.strings
        = 4096 * (pages + 1) + (4096 - stackNeed argv.strings) := by omega
    rw [start]
    refine holds ?_ array
    rw [wordBytes_length, List.length_append, pointers_length, List.length_singleton]
    omega
  · intro i inside
    have := between i inside
    have here := placed i inside
    have start : (pointers (4096 * (pages + 1) + 4096) argv.strings).getD i 0
        = 4096 * (pages + 1)
          + ((pointers (4096 * (pages + 1) + 4096) argv.strings).getD i 0
            - 4096 * (pages + 1)) := by
      omega
    rw [start]
    refine holds ?_ here
    rw [List.length_append, List.length_singleton]
    omega
  · intro i inside
    have := between i inside
    omega
  · intro i j order inside
    exact pointers_apart (by omega) order inside
  · intro va low high
    have here : va / 4096 = pages := by
      rw [base, PGSIZE] at low
      omega
    refine ⟨_, by rw [here, sees _ (by omega), view_of_valid mem (by omega) guardValid], ?_⟩
    exact guardClosed

-- kexec

/-- The trapframe with the words that `kexec` writes. -/
def execFrame (page : Page) (sp : Nat) (entry : BitVec 64) : Page :=
  ((page.setEntry A1 (BitVec.ofNat 64 sp)).setEntry EPC entry).setEntry SP (BitVec.ofNat 64 sp)

theorem execFrame_words (page : Page) (sp : Nat) (entry : BitVec 64)
    : (execFrame page sp entry).entry SP = BitVec.ofNat 64 sp
      ∧ (execFrame page sp entry).entry A1 = BitVec.ofNat 64 sp := by
  constructor
  · exact entry_setEntry_same _ (by decide) _
  · rw [execFrame, entry_setEntry_other _ (by decide) (by decide),
      entry_setEntry_other _ (by decide) (by decide), entry_setEntry_same _ (by decide)]

theorem Custody.discard (custody : Custody layout m g loose) {u : Ghost Unit} {s : Phys}
    (inv : Inv layout s u) (beside : Beside g m.phys u s)
    (image
      : (pagetable = 0 ∧ u.table (.root ()) = none)
        ∨ ∃ r, 0 < r ∧ pagetable = 4096 * r ∧ Image layout g m.phys u s r sz)
    : ∃ s', Discards layout pagetable sz s s'
      ∧ Custody layout { m with phys := s' } g loose
      ∧ SameUse layout m { m with phys := s' } := by
  rcases image with ⟨rfl, gone⟩ | ⟨r, positive, rfl, image⟩
  · exact ⟨s, .inl ⟨rfl, rfl⟩, custody.restored inv beside gone⟩
  · obtain ⟨s', u', run, inv', beside', gone⟩ := image.free
    exact ⟨s', .inr ⟨by omega, run⟩, custody.restored inv' beside' gone⟩

/-- The new image is put in place and the old one freed. -/
theorem commitImage_run (path : List (BitVec 8)) (pagetable sz : Nat) (st : ExecState) {sp t : Nat}
    {entry : BitVec 64} (isFrame : (st.machine.proc p).trapframe = 4096 * t)
    (freed
      : procFreepagetable layout (st.machine.proc p).pagetable (st.machine.proc p).sz
          { st.machine.phys with
            mem := update st.machine.phys.mem t
              (execFrame (st.machine.phys.mem t) sp entry) }
        = .ok ((), s'))
    : ∃ names, commitImage layout p path pagetable sz sp entry st
      = .ok ((), { st with
          machine := { st.machine with
            phys := s'
            proc := update st.machine.proc p
              { st.machine.proc p with pagetable := pagetable, sz := sz } }
          names := names }) := by
  refine ⟨update st.names p
    (safestrcpy (st.names p) (lastElement path path) 16), ?_⟩
  have words : ((st.machine.phys.setEntry t A1 (BitVec.ofNat 64 sp)).setEntry t EPC entry).setEntry
        t SP (BitVec.ofNat 64 sp)
      = { st.machine.phys with
          mem := update st.machine.phys.mem t
            (execFrame (st.machine.phys.mem t) sp entry) } := by
    simp only [Phys.setEntry, update_self, update_idem, execFrame]
  rw [← words] at freed
  unfold commitImage
  rw [bind_ok (get_run st), isFrame, bind_ok (onMemory_ok (writeEntry_run _ t A1 _)),
    bind_ok rfl, bind_ok rfl, bind_ok (onMemory_ok (writeEntry_run _ t EPC _)),
    bind_ok (onMemory_ok (writeEntry_run _ t SP _))]
  simp only [onMachine, onPhys, freed, isFrame]

section

variable {names : Slot → List (BitVec 8)} {begun ended refs : Nat} (path : List (BitVec 8))
  {ip : List (BitVec 8)} {argv : List (List (BitVec 8))} {progress : Progress} {s₁ s₂ : Phys}
  {sz : Nat} (loaded : loadImage layout (m.proc p).trapframe ip m.phys = .ok (progress, s₁))

include loaded

theorem kexec_unloaded (failed : progress.ok = false)
    : kexec layout p path (some ip) argv ⟨m, names, begun, ended, refs, false⟩
      = bad layout progress.pagetable progress.sz true
          ⟨{ m with phys := s₁ }, names, begun + 1, ended, refs + 1, true⟩ := by
  unfold kexec
  rw [bind_ok rfl]
  dsimp only
  rw [bind_ok rfl, bind_ok rfl, bind_ok (get_run _), bind_ok (onMemory_ok loaded), failed]
  rfl

variable (ok : progress.ok = true)

include ok

theorem kexec_built {stack : Option Nat}
    (built
      : buildStack layout (m.proc p).sz (m.proc p).pagetable progress.pagetable progress.sz argv s₁
        = .ok ((sz, stack), s₂))
    : kexec layout p path (some ip) argv ⟨m, names, begun, ended, refs, false⟩
      = stack.elim (bad layout progress.pagetable sz false)
          (fun sp => do
            commitImage layout p path progress.pagetable sz sp (ElfHdr.of (readi ip 0 64)).entry
            return some argv.length)
          ⟨{ m with phys := s₂ }, names, begun + 1, ended + 1, refs, false⟩ := by
  unfold kexec
  rw [bind_ok rfl]
  dsimp only
  rw [bind_ok rfl, bind_ok rfl, bind_ok (get_run _), bind_ok (onMemory_ok loaded), ok]
  simp only [Bool.not_true, Bool.false_eq_true, if_false]
  rw [bind_ok rfl, bind_ok rfl, bind_ok (onMemory_ok (by exact built))]
  cases stack <;> rfl

end

/-- How a call of `kexec` ends; `ready` says whether the file and the memory allow a new image. -/
inductive ExecEnd (layout : Layout) (p : Slot) (m : Machine) (names : Slot → List (BitVec 8))
    (argv : List (List (BitVec 8))) (ready : Bool)
    : Option Nat → Machine → (Slot → List (BitVec 8)) → Prop
  | failed (m' : Machine) (reason : ready = false ∨ USERSTACK * PGSIZE < stackNeed argv)
    (same : SameUse layout m m') : ExecEnd layout p m names argv ready none m' names
  | done (m' : Machine) (names' : Slot → List (BitVec 8)) (sp : Nat) (ptrs : List Nat)
    (allowed : ready = true) (fits : stackNeed argv ≤ USERSTACK * PGSIZE)
    (replaced : Replaced layout p m m') (stack : StackImage m' p argv sp ptrs)
    : ExecEnd layout p m names argv ready (some argv.length) m' names'

/-- `kexec` returns in every state, whatever the file and the arguments are. -/
theorem Custody.kexec (custody : Custody layout m g loose) (used : (m.proc p).status ≠ .unused)
    (path : List (BitVec 8)) (file : Option (List (BitVec 8))) (names : Slot → List (BitVec 8))
    (begun ended refs : Nat)
    : ∃ ready, ∀ argv : ArgVector, ∃ result m' names' g',
        Vm.kexec layout p path file argv.strings ⟨m, names, begun, ended, refs, false⟩
          = .ok (result, ⟨m', names', begun + 1, ended + 1, refs, false⟩)
        ∧ Custody layout m' g' loose
        ∧ ExecEnd layout p m names argv.strings ready result m' names' := by
  cases file with
  | none =>
    exact ⟨false, fun argv => ⟨none, m, names, g, rfl, custody, .failed m (.inl rfl)
      (.refl layout m)⟩⟩
  | some ip =>
  obtain ⟨progress, s₁, u₁, run₁, loaded⟩ := custody.inv.loadImage (m.proc p).trapframe ip
  cases ok : progress.ok with
  | false =>
    have begun : (progress.pagetable = 0 ∧ u₁.table (.root ()) = none)
        ∨ ∃ r, 0 < r ∧ progress.pagetable = 4096 * r
          ∧ Image layout g m.phys u₁ s₁ r progress.sz := by
      rcases loaded.image with ⟨_, absent⟩ | ⟨r, positive, isRoot, image, _⟩
      · exact .inl absent
      · exact .inr ⟨r, positive, isRoot, image⟩
    obtain ⟨s', discards, custody', same⟩ := custody.discard loaded.inv loaded.beside begun
    refine ⟨false, fun argv => ⟨none, _, names, g, ?_, custody', .failed _ (.inl rfl) same⟩⟩
    rw [kexec_unloaded path run₁ ok]
    exact bad_open (m := { m with phys := s₁ }) discards
  | true =>
  obtain ⟨r, positive, isRoot, image, whole⟩ := loaded.image.resolve_left (by simp [ok])
  obtain ⟨full, room⟩ := whole ok
  rcases image.buildStack room (m.proc p).sz (m.proc p).pagetable with ⟨s₂, u₂, image₂, built⟩
    | ⟨s₂, u₂, image₂, writable, readable, guardValid, guardClosed, built⟩
  · obtain ⟨s', discards, custody', same⟩ := custody.discard image₂.inv image₂.beside
      (.inr ⟨r, positive, rfl, image₂⟩)
    refine ⟨false, fun argv => ⟨none, _, names, g, ?_, custody', .failed _ (.inl rfl) same⟩⟩
    rw [kexec_built path run₁ ok (by rw [isRoot]; exact built argv.strings), isRoot]
    exact bad_closed (by exact discards)
  -- The memory for the stack is there; the arguments decide.
  refine ⟨true, fun argv => ?_⟩
  have small : pageCount progress.sz + 1 < userPages := readable.1
  obtain ⟨stack, page, pushed, outcome⟩ := image₂.pushArguments writable (m.proc p).sz
    (m.proc p).pagetable argv (Nat.succ_pos _)
  have image₃ : Image layout g m.phys u₂ (withPage u₂ s₂ (pageCount progress.sz + 1) page) r
      (4096 * (pageCount progress.sz + 2)) := image₂.store small readable.2.1 page
  have whole := (built argv.strings).trans (bind_ok pushed)
  rcases outcome with ⟨rfl, deep⟩ | ⟨rfl, fits, placed, array⟩
  · obtain ⟨s', discards, custody', same⟩ := custody.discard image₃.inv image₃.beside
      (.inr ⟨r, positive, rfl, image₃⟩)
    refine ⟨none, _, names, g, ?_, custody', .failed _ (.inr ?_) same⟩
    · rw [kexec_built path run₁ ok (by rw [isRoot]; exact whole), isRoot]
      exact bad_closed (by exact discards)
    · simpa only [USERSTACK, PGSIZE, Nat.one_mul] using deep
  · obtain ⟨t, isFrame, ram⟩ := ((custody.seats p).space used).trapframe
    obtain ⟨s', g', freed, custody', frame, installed, view⟩ := custody.replaced used image₃ isFrame
      (execFrame ((withPage u₂ s₂ (pageCount progress.sz + 1) page).mem t)
        (4096 * (pageCount progress.sz + 1) + 4096 - stackNeed argv.strings)
        (ElfHdr.of (readi ip 0 64)).entry)
    obtain ⟨names', committed⟩ := commitImage_run (p := p) path (4096 * r)
      (4096 * (pageCount progress.sz + 2))
      ⟨{ m with phys := withPage u₂ s₂ (pageCount progress.sz + 1) page }, names, begun + 1,
        ended + 1, refs, false⟩ isFrame freed
    refine ⟨some argv.strings.length, _, names', g', ?_, custody',
      .done _ names' (4096 * (pageCount progress.sz + 1) + 4096 - stackNeed argv.strings)
        (pointers (4096 * (pageCount progress.sz + 1) + 4096) argv.strings) rfl ?_
        (custody.exchanged image₃ custody' installed view rfl rfl rfl)
        (stackImage_of_page argv small (fun v user => ?_) ?_ readable (withPage_mem u₂ s₂ _ page)
          guardValid guardClosed fits placed array ?_)⟩
    · rw [kexec_built path run₁ ok (by rw [isRoot]; exact whole), isRoot, Option.elim_some,
        bind_ok committed]
      rfl
    · simpa only [USERSTACK, PGSIZE, Nat.one_mul] using fits
    · rw [custody'.pageAt_eq p user, view, update_self]
    · simp only [update_self]
    · simp only [Machine.trapWord, update_self, isFrame, Phys.page_mul, frame]
      exact execFrame_words _ _ _

end Xv6.Vm
