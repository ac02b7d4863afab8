import Xv6.Vm.ImageSpec

/-! The stack that `kexec` builds. The strings go down from the top of the stack page, each
rounded up to 16 bytes, and the array of pointers after them; nothing is written twice, and the
only way to fail is to run into the bottom of the page.
-/

namespace Xv6.Vm

open Function Library

variable {sp offset : Nat}

-- Where things go

def round16 (n : Nat) : Nat := (n + 15) / 16 * 16

/-- What the strings take, each with its NUL and the gap for the alignment. -/
def stackUse : List (List (BitVec 8)) → Nat
  | [] => 0
  | arg :: rest => round16 (arg.length + 1) + stackUse rest

/-- What the strings and the array of pointers take. -/
def stackNeed (argv : List (List (BitVec 8))) : Nat :=
  stackUse argv + round16 ((argv.length + 1) * 8)

theorem stackUse_aligned (argv : List (List (BitVec 8))) : stackUse argv % 16 = 0 := by
  induction argv with
  | nil => rfl
  | cons arg rest ih =>
    simp only [stackUse, round16] at *
    omega

theorem stackNeed_aligned (argv : List (List (BitVec 8))) : stackNeed argv % 16 = 0 := by
  have strings := stackUse_aligned argv
  simp only [stackNeed, round16]
  omega

/-- Where the strings go below `sp`. -/
def pointers (sp : Nat) : List (List (BitVec 8)) → List Nat
  | [] => []
  | arg :: rest =>
    (sp - round16 (arg.length + 1)) :: pointers (sp - round16 (arg.length + 1)) rest

@[simp] theorem pointers_length (sp : Nat) (argv : List (List (BitVec 8)))
    : (pointers sp argv).length = argv.length := by
  induction argv generalizing sp with
  | nil => rfl
  | cons arg rest ih => simp [pointers, ih]

theorem pushDown_eq {n : Nat} (aligned : sp % 16 = 0) (small : sp < 2 ^ 64) (room : round16 n ≤ sp)
    : pushDown sp n = sp - round16 n := by
  simp only [pushDown, round16] at *
  omega

/-- Every string lies between the final stack pointer and the initial one. -/
theorem pointers_between {argv : List (List (BitVec 8))} {i : Nat} (room : stackUse argv ≤ sp)
    (inside : i < argv.length)
    : sp - stackUse argv ≤ (pointers sp argv).getD i 0
      ∧ (pointers sp argv).getD i 0 + (argv.getD i []).length + 1 ≤ sp := by
  induction argv generalizing sp i with
  | nil => simp at inside
  | cons arg rest ih =>
    simp only [stackUse] at room ⊢
    cases i with
    | zero =>
      simp only [pointers, List.getD_cons_zero, round16] at *
      omega
    | succ i =>
      have rest := ih (by omega : stackUse rest ≤ sp - round16 (arg.length + 1))
        (by simpa using inside)
      simp only [pointers, List.getD_cons_succ]
      omega

/-- A later string lies below an earlier one. -/
theorem pointers_apart {argv : List (List (BitVec 8))} {i j : Nat} (room : stackUse argv ≤ sp)
    (order : i < j) (inside : j < argv.length)
    : (pointers sp argv).getD j 0 + (argv.getD j []).length + 1 ≤ (pointers sp argv).getD i 0 := by
  induction argv generalizing sp i j with
  | nil => simp at inside
  | cons arg rest ih =>
    obtain ⟨j, rfl⟩ : ∃ k, j = k + 1 := ⟨j - 1, by omega⟩
    simp only [stackUse, List.length_cons] at room inside
    have fits : stackUse rest ≤ sp - round16 (arg.length + 1) := by omega
    cases i with
    | zero =>
      have below := pointers_between fits (by omega : j < rest.length)
      exact below.2
    | succ i =>
      exact ih fits (by omega) (by omega)

theorem wordBytes_length (words : List Nat)
    : (words.flatMap wordBytes).length = words.length * 8 := by
  induction words with
  | nil => rfl
  | cons word rest ih =>
    rw [List.flatMap_cons, List.length_append, List.length_cons]
    simp only [wordBytes, List.length_map, List.length_range]
    omega

-- Bytes of the stack page

/-- The page has the bytes from the given offset on. -/
def Page.Holds (page : Page) (offset : Nat) (bytes : List (BitVec 8)) : Prop :=
  ∀ k, k < bytes.length → page.byte (offset + k) = bytes.getD k 0

theorem Page.holds_write (page : Page) {bytes : List (BitVec 8)}
    (fits : offset + bytes.length ≤ 4096)
    : (page.write offset bytes).Holds offset bytes := by
  intro k inside
  have position : offset + k - offset = k := by omega
  rw [byte_write page fits (by omega), if_pos (by omega), position]

theorem Page.Holds.congr {page page' : Page} {bytes : List (BitVec 8)}
    (holds : page.Holds offset bytes)
    (same : ∀ k, offset ≤ k → k < offset + bytes.length → page'.byte k = page.byte k)
    : page'.Holds offset bytes := by
  intro k inside
  rw [same _ (by omega) (by omega)]
  exact holds k inside

/-- The strings are in the page `v`, each at its pointer. -/
def Placed (page : Page) (v sp : Nat) (argv : List (List (BitVec 8))) : Prop :=
  ∀ i, i < argv.length
    → page.Holds ((pointers sp argv).getD i 0 - 4096 * v) (argv.getD i [] ++ [0])

-- Pushing

variable {ι : Type} [Fintype ι] {layout : Layout} {s₀ s : Phys} {g : Ghost ι} {u : Ghost Unit}
  {r sz v : Nat}

/-- The state with other contents of the page behind `v`. -/
def withPage (u : Ghost Unit) (s : Phys) (v : Nat) (page : Page) : Phys :=
  { s with mem := update s.mem (u.leaf () v).ppn page }

theorem withPage_withPage (u : Ghost Unit) (s : Phys) (v : Nat) (page page' : Page)
    : withPage u (withPage u s v page) v page' = withPage u s v page' := by
  simp [withPage]

theorem withPage_self (u : Ghost Unit) (s : Phys) (v : Nat)
    : withPage u s v (s.mem (u.leaf () v).ppn) = s := by
  simp [withPage]

@[simp] theorem withPage_mem (u : Ghost Unit) (s : Phys) (v : Nat) (page : Page)
    : (withPage u s v page).mem (u.leaf () v).ppn = page := by
  simp [withPage]

namespace Image

/-- `copyout` to part of one page that is there. It needs no memory, and not the caller's page
table.
-/
theorem copyout (image : Image layout g s₀ u s r sz) (opened : Open u () v PTE_W)
    (oldsz own : Nat) {va : Nat} {bytes : List (BitVec 8)} (page : va / 4096 = v)
    (some : bytes ≠ []) (fits : va % 4096 + bytes.length ≤ 4096)
    : Vm.copyout layout oldsz own (4096 * r) va bytes s
      = .ok (true, withPage u s v ((s.mem (u.leaf () v).ppn).write (va % 4096) bytes)) := by
  obtain ⟨user, valid, open_, writable⟩ := opened
  have start : 4096 * v / 4096 = v := by omega
  have bound : 4096 * v < MAXVA := user_address (by rw [start]; exact user)
  have address := PTE2PA_eq (image.inv.leaf_small user valid)
  have found : Vm.walkaddr (4096 * r) (4096 * v) s
      = .ok (Option.some (4096 * (u.leaf () v).ppn), s) := by
    rw [image.inv.walkaddr_run image.root bound, start, valid, open_, address]
    rfl
  have paged : copyoutPage layout oldsz own (4096 * r) (4096 * v) s
      = .ok (Option.some (4096 * (u.leaf () v).ppn), s) := by
    unfold copyoutPage userPage
    rw [if_neg (by omega), bind_assoc, bind_ok found]
    rcases image.inv.shape.look image.root bound with ⟨_, vacant⟩ | ⟨m, walked, _, leaf⟩
    · rw [start] at vacant
      rw [vacant, zero_invalid] at valid
      cases valid
    · rw [start] at walked leaf
      have entryValid : ((s.mem m).entry (v % 512)).has PTE_V = true := by
        rw [← Pte.has_mapped, ← leaf, valid]
      rw [Pte.mapped_of_valid entryValid] at leaf
      simp only [pure_bind]
      rw [bind_ok walked]
      dsimp only
      rw [bind_ok (readEntry_run s m _), ← leaf, if_pos writable]
      rfl
  have whole : min (4096 - va % 4096) bytes.length = bytes.length := by omega
  rw [Vm.copyout, dif_neg some, PGROUNDDOWN_eq, page, bind_ok paged, whole]
  dsimp only
  rw [bind_ok (storeBytes_run s _ _ _), List.take_length, List.drop_length, Vm.copyout]
  rfl

/-- The loop over the strings, from any point of the page down. -/
theorem pushStrings (image : Image layout g s₀ u s r sz) (opened : Open u () v PTE_W)
    (oldsz own : Nat) (ustack : List Nat) {argv : List (List (BitVec 8))} {sp : Nat}
    (positive : 0 < v) (aligned : sp % 16 = 0) (above : 4096 * v ≤ sp)
    (below : sp ≤ 4096 * v + 4096) (few : ustack.length + argv.length ≤ MAXARG)
    (short : ∀ arg ∈ argv, arg.length < PGSIZE)
    : ∃ result page,
        Vm.pushStrings layout oldsz own (4096 * r) (4096 * v) argv sp ustack s
          = .ok (result, withPage u s v page)
        ∧ ((result = none ∧ sp < 4096 * v + stackUse argv)
          ∨ (result = some (sp - stackUse argv, ustack ++ pointers sp argv)
            ∧ 4096 * v + stackUse argv ≤ sp
            ∧ (∀ k, sp - 4096 * v ≤ k → k < 4096
              → page.byte k = (s.mem (u.leaf () v).ppn).byte k)
            ∧ Placed page v sp argv)) := by
  have user := opened.1
  induction argv generalizing s sp ustack with
  | nil =>
    refine ⟨some (sp, ustack), s.mem (u.leaf () v).ppn, ?_, .inr ⟨?_, ?_, ?_, ?_⟩⟩
    · rw [withPage_self]
      rfl
    · simp [stackUse, pointers]
    · simpa [stackUse] using above
    · exact fun _ _ _ => rfl
    · exact fun i inside => by simp at inside
  | cons arg rest ih =>
    have length := short arg List.mem_cons_self
    simp only [List.length_cons] at few
    simp only [userPages, PGSIZE] at user length
    have rounded : arg.length + 1 ≤ round16 (arg.length + 1)
        ∧ round16 (arg.length + 1) ≤ 4096 ∧ round16 (arg.length + 1) % 16 = 0 := by
      simp only [round16]
      omega
    have pushed := pushDown_eq (n := arg.length + 1) aligned (by omega) (by omega)
    unfold Vm.pushStrings
    rw [if_neg (by omega), pushed]
    by_cases bottom : sp - round16 (arg.length + 1) < 4096 * v
    · rw [if_pos bottom]
      refine ⟨none, s.mem (u.leaf () v).ppn, ?_, .inl ⟨rfl, ?_⟩⟩
      · rw [withPage_self]
        rfl
      · simp only [stackUse]
        omega
    rw [if_neg bottom]
    generalize low : sp - round16 (arg.length + 1) = sp₁ at *
    have offset : sp₁ % 4096 = sp₁ - 4096 * v := by omega
    have bytes : (arg ++ [0]).length = arg.length + 1 := by simp
    have copied := image.copyout opened oldsz own (by omega : sp₁ / 4096 = v)
      (by simp : arg ++ [0] ≠ []) (by omega)
    rw [bind_ok copied, if_pos rfl]
    have stored := image.store opened.1 opened.2.1
      ((s.mem (u.leaf () v).ppn).write (sp₁ % 4096) (arg ++ [0]))
    obtain ⟨result, page, run, outcome⟩ := ih stored (ustack ++ [sp₁])
      (by omega : sp₁ % 16 = 0) (by omega) (by omega) (by simp; omega)
      fun arg member => short arg (List.mem_cons_of_mem _ member)
    refine ⟨result, page, run.trans (by rw [← withPage, withPage_withPage]), ?_⟩
    rcases outcome with ⟨rfl, full⟩ | ⟨rfl, room, kept, placed⟩
    · exact .inl ⟨rfl, by simp only [stackUse]; omega⟩
    · have written := Page.holds_write (s.mem (u.leaf () v).ppn)
        (by omega : sp₁ % 4096 + (arg ++ [0]).length ≤ 4096)
      simp only [update_self] at kept
      refine .inr ⟨?_, by simp only [stackUse]; omega, fun k high inPage => ?_, fun i inside => ?_⟩
      · simp only [stackUse, pointers, low, List.append_assoc, List.singleton_append]
        rw [← low, Nat.sub_sub]
      · rw [kept k (by omega) inPage, byte_write _ (by omega) inPage, if_neg (by omega)]
      · cases i with
        | zero =>
          simp only [pointers, List.getD_cons_zero, low]
          rw [← offset]
          exact written.congr fun k first last => kept k (by omega) (by omega)
        | succ i =>
          simp only [pointers, List.getD_cons_succ, low]
          exact placed i (by simpa using inside)

/-- The strings and the array of pointers, from the top of the page. -/
theorem pushArguments (image : Image layout g s₀ u s r sz) (opened : Open u () v PTE_W)
    (oldsz own : Nat) (argv : ArgVector) (positive : 0 < v)
    : ∃ result page,
        Vm.pushArguments layout oldsz own (4096 * r) (4096 * v) (4096 * v + 4096) argv.strings s
          = .ok (result, withPage u s v page)
        ∧ ((result = none ∧ 4096 < stackNeed argv.strings)
          ∨ (result = some (4096 * v + 4096 - stackNeed argv.strings)
            ∧ stackNeed argv.strings ≤ 4096
            ∧ Placed page v (4096 * v + 4096) argv.strings
            ∧ page.Holds (4096 - stackNeed argv.strings)
                ((pointers (4096 * v + 4096) argv.strings ++ [0]).flatMap wordBytes))) := by
  have user := opened.1
  have few := argv.few
  simp only [userPages, MAXARG] at user few
  obtain ⟨result, page, run, outcome⟩ := image.pushStrings opened oldsz own [] positive
    (by omega : (4096 * v + 4096) % 16 = 0) (by omega) (by omega)
    (by simp only [List.length_nil, MAXARG]; omega) argv.short
  unfold Vm.pushArguments
  rw [bind_ok run]
  rcases outcome with ⟨rfl, full⟩ | ⟨rfl, room, kept, placed⟩
  · exact ⟨none, page, rfl, .inl ⟨rfl, by simp only [stackNeed]; omega⟩⟩
  have rounded : (argv.strings.length + 1) * 8 ≤ round16 ((argv.strings.length + 1) * 8)
      ∧ round16 ((argv.strings.length + 1) * 8) ≤ 4096 := by
    simp only [round16]
    omega
  have multiple := stackUse_aligned argv.strings
  have pushed : pushDown (4096 * v + 4096 - stackUse argv.strings) ((argv.strings.length + 1) * 8)
      = _ := pushDown_eq (by omega) (by omega) (by omega)
  simp only [List.nil_append, pointers_length]
  rw [pushed, Nat.sub_sub, ← stackNeed]
  have split : stackNeed argv.strings
      = stackUse argv.strings + round16 ((argv.strings.length + 1) * 8) := rfl
  by_cases bottom : 4096 * v + 4096 - stackNeed argv.strings < 4096 * v
  · rw [if_pos bottom]
    exact ⟨none, page, rfl, .inl ⟨rfl, by omega⟩⟩
  rw [if_neg bottom]
  have bytes : ((pointers (4096 * v + 4096) argv.strings ++ [0]).flatMap wordBytes).length
      = (argv.strings.length + 1) * 8 := by
    rw [wordBytes_length]
    simp
  have offset : (4096 * v + 4096 - stackNeed argv.strings) % 4096
      = 4096 - stackNeed argv.strings := by omega
  have stored := image.store opened.1 opened.2.1 page
  have copied := stored.copyout opened oldsz own
    (by omega : (4096 * v + 4096 - stackNeed argv.strings) / 4096 = v)
    (by
      intro empty
      rw [empty] at bytes
      simp at bytes
      : (pointers (4096 * v + 4096) argv.strings ++ [0]).flatMap wordBytes ≠ [])
    (by omega)
  rw [offset] at copied
  rw [← withPage, withPage_withPage, withPage_mem] at copied
  rw [bind_ok copied, if_pos rfl]
  refine ⟨_, _, rfl, .inr ⟨rfl, by omega, fun i inside => ?_, Page.holds_write _ (by omega)⟩⟩
  -- The array ends below the strings.
  refine (placed i inside).congr fun k first last => ?_
  have between := pointers_between (by omega : stackUse argv.strings ≤ 4096 * v + 4096) inside
  simp only [List.length_append, List.length_singleton] at last
  rw [byte_write _ (by omega) (by omega), if_neg (by omega)]

theorem stack_pages (pages : Nat)
    : 4096 * (pages + 2) - (USERSTACK + 1) * 4096 = 4096 * pages
      ∧ 4096 * (pages + 2) - USERSTACK * 4096 = 4096 * (pages + 1)
      ∧ 4096 * (pages + 1) + 4096 = 4096 * (pages + 2) := by
  simp only [USERSTACK]
  omega

/-- The stack pages are there and the lower one is closed, or there is no memory for them; either
way the arguments have not been looked at.
-/
theorem buildStack (image : Image layout g s₀ u s r sz)
    (room : pageCount sz + s.freelist.length ≤ ramPages) (oldsz own : Nat)
    : (∃ s' u', Image layout g s₀ u' s' r (PGROUNDUP sz)
        ∧ ∀ argv, Vm.buildStack layout oldsz own (4096 * r) sz argv s
            = .ok ((PGROUNDUP sz, none), s'))
      ∨ ∃ s' u', Image layout g s₀ u' s' r (4096 * (pageCount sz + 2))
        ∧ Open u' () (pageCount sz + 1) PTE_W ∧ Open u' () (pageCount sz + 1) PTE_R
        ∧ (u'.leaf () (pageCount sz)).has PTE_V = true
        ∧ (u'.leaf () (pageCount sz)).has PTE_U = false
        ∧ ∀ argv, Vm.buildStack layout oldsz own (4096 * r) sz argv s
            = (do
                let stack ← Vm.pushArguments layout oldsz own (4096 * r)
                  (4096 * (pageCount sz + 1)) (4096 * (pageCount sz + 1) + 4096) argv
                return (4096 * (pageCount sz + 2), stack)) s' := by
  have pages : pageCount (4096 * pageCount sz) = pageCount sz := pageCount_mul _
  have aligned : Image layout g s₀ u s r (PGROUNDUP sz) := by
    rw [PGROUNDUP_eq]
    exact image.resize (ram_fits (by omega)).2 (by omega)
  rw [PGROUNDUP_eq] at aligned ⊢
  obtain ⟨result, s₁, u₁, run₁, outcome⟩ := aligned.uvmalloc (by omega)
    (by decide : PTE_W.toNat < 1024) (4096 * pageCount sz + (USERSTACK + 1) * 4096)
  rcases outcome with ⟨rfl, image₁⟩ | ⟨positive, isMax, image₁, _, entered⟩
  · refine .inl ⟨s₁, u₁, image₁, fun argv => ?_⟩
    unfold Vm.buildStack
    rw [PGROUNDUP_eq, bind_ok run₁, if_pos rfl]
    rfl
  right
  have size : result = 4096 * (pageCount sz + 2) := by
    rw [isMax, USERSTACK]
    omega
  have count : pageCount (4096 * pageCount sz + (USERSTACK + 1) * 4096) = pageCount sz + 2 := by
    simp only [pageCount, USERSTACK]
    omega
  subst size
  rw [pages, count] at entered
  have user : pageCount sz + 2 ≤ userPages := by
    have := pageCount_user image₁.fits
    rwa [pageCount_mul] at this
  have guard : 4096 * pageCount sz / 4096 = pageCount sz := by omega
  obtain ⟨n, closed⟩ := entered.new (pageCount sz) (Nat.le_refl _) (by omega)
  obtain ⟨k, stack⟩ := entered.new (pageCount sz + 1) (by omega) (by omega)
  obtain ⟨s₂, u₂, run₂, grows, leaf, growth⟩ := image₁.inv.uvmclear image₁.root
    (by omega : 4096 * pageCount sz / 4096 < userPages)
    (by rw [guard, closed]; exact mappedEntry_valid _ _)
  rw [guard] at growth leaf
  have image₂ : Image layout g s₀ u₂ s₂ r (4096 * (pageCount sz + 2)) := by
    refine image₁.change growth.toChange (image₁.inv.grows_kept grows) image₁.fits
      fun v above => ?_
    rw [pageCount_mul] at above
    rw [setAt_other _ _ fun same => by omega]
    exact image₁.top v (by rwa [pageCount_mul])
  have stack₂ : u₂.leaf () (pageCount sz + 1)
      = PA2PTE (4096 * k) ||| (PTE_R ||| PTE_U ||| PTE_W) ||| PTE_V := by
    rw [leaf, setAt_other _ _ fun same => by omega, stack]
  have opened (flag : Pte) (allowed : (PTE_R ||| PTE_U ||| PTE_W).has flag = true)
      : Open u₂ () (pageCount sz + 1) flag := by
    refine ⟨by omega, ?_⟩
    rw [stack₂, Pte.has_or _ _ flag, Pte.has_or _ _ flag, allowed, Bool.or_true, Bool.true_or]
    exact ⟨mappedEntry_valid _ _, (entered_open k PTE_W).1, rfl⟩
  refine ⟨s₂, u₂, image₂, opened PTE_W (by decide), opened PTE_R (by decide), ?_, ?_,
    fun argv => ?_⟩
  · rw [leaf, setAt_same, Pte.has_and, (by decide : ~~~PTE_U &&& PTE_V = PTE_V), closed,
      mappedEntry_valid]
  · rw [leaf, setAt_same, Pte.has_and, (by decide : ~~~PTE_U &&& PTE_U = 0), Pte.has_zero]
  · obtain ⟨low, base, top⟩ := stack_pages (pageCount sz)
    unfold Vm.buildStack
    rw [PGROUNDUP_eq, bind_ok run₁, if_neg positive, low, bind_ok run₂, base, top]

end Image

end Xv6.Vm
