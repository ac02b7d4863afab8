import Xv6.Ramdisk.ByteArray

/-! What `rd_write` of `kernel/brd.c` reports when its source becomes unreadable or memory runs
out. Whether `kalloc` finds a page is given for each round of the loop, by the bytes that are done
when the round begins.
-/

namespace Xv6.Ramdisk.WriteReport

open Function

/-- `rd_dev.pages`, each page with its bytes. -/
abbrev Pages := Nat → Option (Nat → Byte)

/-- The array that `rd_read` shows. -/
def contents (pages : Pages) (i : Nat) : Byte :=
  (pages (i / PGSIZE)).elim 0 fun page => page (i % PGSIZE)

/-- `rd_walk` with `alloc`. The caller stores the page that it gets. -/
def rdWalk (pages : Pages) (idx : Nat) (memory : Bool) : Option (Nat → Byte) :=
  if RD_PAGES ≤ idx then
    none
  else
    match pages idx with
    | some page => some page
    | none => if memory then some fun _ => 0 else none

/-- The page after `copyin` has stored `copied` bytes of the source, from byte `total` on. -/
def copyin (src : Nat → Byte) (total pageOff copied : Nat) (page : Nat → Byte) : Nat → Byte :=
  fun i => if pageOff ≤ i ∧ i < pageOff + copied then src (total + (i - pageOff)) else page i

variable (src : Nat → Byte) (readable : Nat) (memory : Nat → Bool)

/-- The loop of `rd_write`. The first argument bounds its rounds; byte `readable` of the source is
the first that cannot be read, and `copyin` stores those before it.
-/
def rdWriteLoop (off n : Nat) : Nat → Nat → Pages → Int × Pages
  | 0, total, pages => (total, pages)
  | rounds + 1, total, pages =>
    if total < n then
      let m := min (PGSIZE - (off + total) % PGSIZE) (n - total)
      match rdWalk pages ((off + total) / PGSIZE) (memory total) with
      | none => (if 0 < total then total else -1, pages)
      | some page =>
        let copied := min m (readable - total)
        let pages := update pages ((off + total) / PGSIZE)
          (some (copyin src total ((off + total) % PGSIZE) copied page))
        if copied < m then (-1, pages) else rdWriteLoop off n rounds (total + m) pages
    else
      (total, pages)

/-- `rd_write` from user memory: what it returns, and the pages after it. -/
def rdWrite (loaded : Bool) (off n : BitVec 32) (pages : Pages) : Int × Pages :=
  if loaded = false ∨ RD_SIZE ≤ off.toNat then
    (-1, pages)
  else
    let n := (clamp off n).toInt.toNat
    rdWriteLoop src readable memory off.toNat n n 0 pages

/-- A count is what was stored, and no other byte has changed; after a failure none has. -/
def Reports (off n : BitVec 32) (pages : Pages) (result : Int × Pages) : Prop :=
  (0 ≤ result.1 → result.1.toNat ≤ n.toNat
    ∧ contents result.2 = put (contents pages) off.toNat src 0 result.1.toNat)
  ∧ (result.1 = -1 → contents result.2 = contents pages)

/-- The round that begins with byte `start` of the source finds neither its page nor memory for one.
-/
def Starves (off : Nat) (pages : Pages) (start : Nat) : Prop :=
  pages ((off + start) / PGSIZE) = none ∧ memory start = false

/-- The rounds from byte `total` on end before they come to the first byte that cannot be read. All
rounds but the first begin with a page.
-/
def EndsInTime (off n total : Nat) (pages : Pages) : Prop :=
  n ≤ readable
    ∨ ∃ start, total ≤ start ∧ start ≤ readable ∧ start < n
      ∧ (start = total ∨ (off + start) % PGSIZE = 0) ∧ Starves memory off pages start

variable {src readable memory} {pages : Pages} {off n total : Nat}

theorem contents_copyin (src : Nat → Byte) {page : Nat → Byte} {available : Bool} {copied : Nat}
    (walked : rdWalk pages ((off + total) / PGSIZE) available = some page)
    (fits : (off + total) % PGSIZE + copied ≤ PGSIZE)
    : contents (update pages ((off + total) / PGSIZE)
        (some (copyin src total ((off + total) % PGSIZE) copied page)))
      = put (contents pages) off src total (total + copied) := by
  unfold PGSIZE at *
  have same (o : Nat) : page o = (pages ((off + total) / 4096)).elim 0 fun page => page o := by
    unfold rdWalk at walked
    cases held : pages ((off + total) / 4096) with
    | some page' => simp_all
    | none =>
      simp only [held, Option.ite_none_left_eq_some, Option.ite_none_right_eq_some] at walked
      rw [← Option.some.inj walked.2.2]
      rfl
  funext i
  by_cases here : i / 4096 = (off + total) / 4096
  · simp only [contents, PGSIZE, here, update_self, Option.elim_some, copyin, put]
    by_cases inside : off + total ≤ i ∧ i < off + (total + copied)
    · have place : total + (i % 4096 - (off + total) % 4096) = i - off := by omega
      rw [if_pos (by omega), if_pos inside, place]
    · rw [if_neg (by omega), if_neg inside, same]
  · simp only [contents, update_of_ne here, put]
    rw [if_neg (by omega)]

theorem rdWalk_eq_none (below : (off + total) / PGSIZE < RD_PAGES)
    : rdWalk pages ((off + total) / PGSIZE) (memory total) = none
      ↔ Starves memory off pages total := by
  unfold rdWalk Starves
  rw [if_neg (Nat.not_le.mpr below)]
  cases pages ((off + total) / PGSIZE) <;> cases memory total <;> simp

/-- A round that stores its whole part does not decide whether the loop ends in time. -/
theorem EndsInTime.of_round {page : Nat → Byte} (begun : total < n)
    (fed : ¬ Starves memory off pages total)
    : EndsInTime readable memory off n total pages
      ↔ EndsInTime readable memory off n
          (total + min (PGSIZE - (off + total) % PGSIZE) (n - total))
          (update pages ((off + total) / PGSIZE) (some page)) := by
  unfold EndsInTime Starves PGSIZE
  refine or_congr_right ⟨?_, ?_⟩
  · rintro ⟨start, later, before, more, aligned, starves⟩
    have other : start ≠ total := fun same => fed (same ▸ starves)
    have elsewhere : (off + start) / 4096 ≠ (off + total) / 4096 := by omega
    exact ⟨start, by omega, before, more, .inr (by omega),
      by rwa [update_of_ne elsewhere]⟩
  · rintro ⟨start, later, before, more, aligned, starves⟩
    have elsewhere : (off + start) / 4096 ≠ (off + total) / 4096 := by omega
    rw [update_of_ne elsewhere] at starves
    exact ⟨start, by omega, before, more, .inr (by omega), starves⟩

/-- The loop stops at a byte and returns it, with all bytes before it stored; without any, it
fails.
-/
def Stops (src : Nat → Byte) (off n total : Nat) (pages : Pages) (result : Int × Pages) : Prop :=
  ∃ last, total ≤ last ∧ last ≤ n ∧ contents result.2 = put (contents pages) off src total last
    ∧ (result.1 = last ∨ (result.1 = -1 ∧ last = 0))

theorem Stops.here {r : Int} (most : total ≤ n) (returned : r = total ∨ (r = -1 ∧ total = 0))
    : Stops src off n total pages (r, pages) :=
  ⟨total, Nat.le_refl _, most, (put_nothing ..).symm, returned⟩

/-- A loop that ends in time stops. Another one fails, with all bytes stored that can be read. -/
theorem rdWriteLoop_ends {rounds : Nat} {result : Int × Pages} (fits : off + n ≤ RD_SIZE)
    (most : total ≤ n) (begun : total ≤ readable) (enough : n ≤ total + rounds)
    (ran : rdWriteLoop src readable memory off n rounds total pages = result)
    : (EndsInTime readable memory off n total pages → Stops src off n total pages result)
      ∧ (¬ EndsInTime readable memory off n total pages
        → result.1 = -1 ∧ contents result.2 = put (contents pages) off src total readable) := by
  induction rounds generalizing total pages result with
  | zero =>
    subst ran
    exact ⟨fun _ => .here most (.inl rfl), fun late => absurd (.inl (by omega)) late⟩
  | succ rounds ih =>
    simp only [rdWriteLoop] at ran
    by_cases more : total < n
    · rw [if_pos more] at ran
      have starved : _ ↔ Starves memory off pages total := rdWalk_eq_none (page_lt fits more)
      cases walked : rdWalk pages ((off + total) / PGSIZE) (memory total) with
      | none =>
        simp only [walked] at ran
        subst ran
        have starves := starved.mp walked
        refine ⟨fun _ => .here most ?_, fun late => absurd (.inr ⟨total, ?_⟩) late⟩
        · split_ifs with some
          · exact .inl rfl
          · exact .inr ⟨rfl, by omega⟩
        · exact ⟨Nat.le_refl _, begun, more, .inl rfl, starves⟩
      | some page =>
        have fed : ¬ Starves memory off pages total := by
          rw [← starved, walked]
          exact Option.some_ne_none page
        have stored {copied : Nat}
            (within : copied ≤ min (PGSIZE - (off + total) % PGSIZE) (n - total)) :=
          contents_copyin src walked
            (show (off + total) % PGSIZE + copied ≤ PGSIZE by unfold PGSIZE at *; omega)
        simp only [walked] at ran
        by_cases short : readable - total < min (PGSIZE - (off + total) % PGSIZE) (n - total)
        · -- The round comes to the byte that cannot be read.
          rw [if_pos (by omega)] at ran
          subst ran
          have late : ¬ EndsInTime readable memory off n total pages := by
            rintro (all | ⟨start, later, before, _, aligned, starves⟩)
            · omega
            · have other : start ≠ total := fun same => fed (same ▸ starves)
              unfold PGSIZE at aligned short
              omega
          refine ⟨fun inTime => absurd inTime late, fun _ => ⟨rfl, ?_⟩⟩
          rw [stored (Nat.min_le_left ..)]
          congr 1
          omega
        · have here : min (min (PGSIZE - (off + total) % PGSIZE) (n - total)) (readable - total)
              = min (PGSIZE - (off + total) % PGSIZE) (n - total) := by omega
          rw [here, if_neg (Nat.lt_irrefl _)] at ran
          have progress : 0 < min (PGSIZE - (off + total) % PGSIZE) (n - total) := by
            unfold PGSIZE
            omega
          obtain ⟨inTime, late⟩ := ih (by omega) (by omega) (by omega) ran
          rw [← EndsInTime.of_round more fed] at inTime late
          rw [stored (Nat.le_refl _)] at late
          refine ⟨fun ends => ?_, fun notEnds => ?_⟩
          · obtain ⟨last, later, bound, same, returned⟩ := inTime ends
            rw [stored (Nat.le_refl _), put_put _ _ _ (by omega) later] at same
            exact ⟨last, by omega, bound, same, returned⟩
          · obtain ⟨failed, same⟩ := late notEnds
            rw [put_put _ _ _ (by omega) (by omega)] at same
            exact ⟨failed, same⟩
    · rw [if_neg more] at ran
      subst ran
      exact ⟨fun _ => .here most (.inl rfl), fun late => absurd (.inl (by omega)) late⟩

/-- A call reports what it did exactly when it does not begin, ends before it comes to a byte that
it cannot read, or finds the bytes before that one on the device already.
-/
theorem rd_write_reports_iff {loaded : Bool} {off n : BitVec 32} (positive : 0 < n.toInt)
    : Reports src off n pages (rdWrite src readable memory loaded off n pages)
      ↔ loaded = false ∨ RD_SIZE ≤ off.toNat
        ∨ EndsInTime readable memory off.toNat (span off n) 0 pages
        ∨ ∀ i < readable, contents pages (off.toNat + i) = src i := by
  unfold rdWrite
  by_cases refused : loaded = false ∨ RD_SIZE ≤ off.toNat
  · rw [if_pos refused, ← or_assoc, or_iff_left_of_imp fun _ => refused]
    exact iff_of_true ⟨fun nonneg => by omega, fun _ => rfl⟩ refused
  · rw [if_neg refused, ← or_assoc, or_iff_right refused,
      clamp_eq_span (by omega : off.toNat < RD_SIZE) (Int.le_of_lt positive)]
    have short : span off n ≤ n.toNat := Nat.min_le_left ..
    have fits : off.toNat + span off n ≤ RD_SIZE := by
      unfold span
      omega
    generalize ran : rdWriteLoop src readable _ _ _ _ _ _ = result
    obtain ⟨inTime, late⟩ :=
      rdWriteLoop_ends fits (Nat.zero_le _) (Nat.zero_le _) (Nat.le_add_left _ 0) ran
    by_cases ends : EndsInTime readable memory off.toNat (span off n) 0 pages
    · obtain ⟨last, _, bound, same, returned⟩ := inTime ends
      refine iff_of_true ⟨fun nonneg => ?_, fun failed => ?_⟩ (.inl ends)
      · have isLast : result.1.toNat = last := by omega
        rw [isLast]
        exact ⟨by omega, same⟩
      · have none : last = 0 := by omega
        rw [same, none, put_nothing]
    · obtain ⟨failed, same⟩ := late ends
      rw [or_iff_right ends]
      refine ⟨fun reports i less => ?_, fun already => ⟨fun nonneg => by omega, fun _ => ?_⟩⟩
      · have unchanged := congrFun (same.symm.trans (reports.2 failed)) (off.toNat + i)
        rw [put, if_pos (by omega), Nat.add_sub_cancel_left] at unchanged
        exact unchanged.symm
      · rw [same]
        funext i
        rw [put]
        split_ifs with inside
        · have place : off.toNat + (i - off.toNat) = i := by omega
          rw [← already _ (by omega), place]
        · rfl

/-- Witness: the first page is there, and memory is out for the second, where the source ends too.
-/
theorem full_memory_is_reported
    : 0 < (2 : BitVec 32).toInt
      ∧ Reports (fun _ => 7) 4095 2 (fun i => if i = 0 then some fun _ => 0 else none)
          (rdWrite (fun _ => 7) 1 (fun _ => false) true 4095 2
            fun i => if i = 0 then some fun _ => 0 else none) :=
  ⟨by decide, (rd_write_reports_iff (by decide)).mpr
    (.inr (.inr (.inl (.inr ⟨1, by decide, by decide, by decide, .inr rfl, rfl, rfl⟩))))⟩

/-- Two bytes are written, and the second cannot be read: the call fails, and the first is on the
device.
-/
theorem failed_write_changes_the_device
    : (rdWrite (fun _ => 7) 1 (fun _ => true) true 0 2 fun _ => none).1 = -1
      ∧ contents (fun _ => none) 0 = 0
      ∧ contents (rdWrite (fun _ => 7) 1 (fun _ => true) true 0 2 fun _ => none).2 0 = 7 := by
  decide

end Xv6.Ramdisk.WriteReport
