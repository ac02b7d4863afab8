import Xv6.Fs.DirectoryMap

/-! The calls on a directory, one after the other under its lock, while other processes work on
other inodes. The directory always holds the map of what was linked last and not unlinked since.
-/

namespace Xv6.Fs

open Function Library SlotMap Disk

-- Calls

inductive DirCall where
  | dirlookup (name : Chars)
  | dirlink (name : Chars) (target : Nat)
  | unlink (name : Chars)
  | other (op : Op)

inductive DirAnswer where
  | found (entry : Option (Nat × BitVec 32))
  | linked (result : Int)
  | unlinked (entry : Option (Nat × BitVec 32))
  | done
deriving DecidableEq

/-- The call on directory `inum`. -/
def DirCall.perform (sb : Superblock) (inum : Nat) : DirCall → Prog DirAnswer
  | .dirlookup name => do
      let dp ← readInode sb inum
      let (found, _) ← Fs.dirlookup sb dp name
      return .found found
  | .dirlink name target => do
      let dp ← readInode sb inum
      let (result, _) ← Fs.dirlink sb dp name target
      return .linked result
  | .unlink name => do
      let dp ← readInode sb inum
      let (found, _) ← unlinkEntry sb dp name
      return .unlinked found
  | .other op => do
      op.perform sb
      return .done

/-- Inode numbers are those of a `struct dirent`; other operations work on other inodes. -/
def DirCall.Admissible (sb : Superblock) (inum : Nat) (s : Store) : DirCall → Prop
  | .dirlookup _ | .unlink _ => True
  | .dirlink _ target => 0 < target ∧ target < 2 ^ 16
  | .other op => ¬op.On inum ∧ ∀ i, op.On i → Allocated sb s.view i

def DirStep (sb : Superblock) (inum : Nat) (before : Store) (step : DirCall × DirAnswer)
    (after : Store)
    : Prop :=
  step.1.Admissible sb inum before ∧ (step.1.perform sb inum).run before = .ok (step.2, after)

/-- What was linked last under each name and not unlinked since. -/
def current (start : Name → Option Nat)
    : List ((DirCall × DirAnswer) × Store) → Name → Option Nat
  | [] => start
  | ((.dirlink name target, .linked 0), _) :: earlier =>
    update (current start earlier) (nameOf name) (some target)
  | ((.unlink name, .unlinked (some _)), _) :: earlier =>
    update (current start earlier) (nameOf name) none
  | _ :: earlier => current start earlier

variable {sb : Superblock} {inum : Nat} {map : Name → Option Nat} {s : Store}

-- Single calls

/-- There is neither a free entry nor room for one more. -/
def Full (sb : Superblock) (view : Nat → Block) (inum : Nat) : Prop :=
  (∀ i < entryCount sb view inum, slotAt sb view inum i ≠ none)
  ∧ ¬Room sb view inum (entryCount sb view inum)

/-- The name stands in the first entry that was free, or behind all others. -/
def LinkedAt (sb : Superblock) (view view' : Nat → Block) (inum i : Nat) (de : Dirent) : Prop :=
  i ≤ entryCount sb view inum ∧ (∀ j < i, slotAt sb view inum j ≠ none)
  ∧ (i < entryCount sb view inum → slotAt sb view inum i = none)
  ∧ EntryWritten sb inum i de view view'

theorem dirlink_answers (holds : Holds sb s.view inum map) (name : Chars) (target : Nat)
    : ((DirCall.dirlink name target).perform sb inum).Returns s fun answer s' =>
        ((map (nameOf name) ≠ none ∨ Full sb s.view inum)
          ∧ answer = .linked (-1) ∧ Unwritten sb inum s.view s'.view)
        ∨ (map (nameOf name) = none ∧ ¬Full sb s.view inum
          ∧ answer = .linked 0 ∧ ∃ i < MAXENTRIES,
            LinkedAt sb s.view s'.view inum i (newDirent name target)) := by
  refine Prog.returns_peek (readInode_peek holds.allocated) ?_
  refine (dirlink_returns holds name target).bind fun result s' outcome =>
    Prog.returns_pure.mpr ?_
  rcases outcome with ⟨failed, present, rfl⟩ | ⟨absent, i, next, before, free, outcome⟩
  · refine .inl ⟨.inl present, congrArg _ failed, ?_⟩
    exact ⟨holds.sound, holds.allocated, rfl, rfl, fun _ _ => rfl⟩
  · by_cases room : Room sb s.view inum i
    · rw [if_pos room] at outcome
      refine .inr ⟨absent, fun full => ?_, congrArg _ outcome.1, i, room.1, next, before, free,
        outcome.2⟩
      rcases Nat.eq_or_lt_of_le next with rfl | inside
      · exact full.2 room
      · exact full.1 i inside (free inside)
    · rw [if_neg room] at outcome
      refine .inl ⟨.inr ?_, congrArg _ outcome.1, outcome.2⟩
      rcases Nat.eq_or_lt_of_le next with rfl | inside
      · exact ⟨before, room⟩
      · exact absurd (holds.room inside) room

/-- The directory works as the map. -/
structure Serves (sb : Superblock) (inum : Nat) (map : Name → Option Nat) (s : Store) : Prop where
  single : ∀ i < entryCount sb s.view inum, ∀ j < entryCount sb s.view inum, ∀ key v w,
    slotAt sb s.view inum i = some (key, v) → slotAt sb s.view inum j = some (key, w) → i = j
  whole : Dirent.bytes ∣ (dinodeAt sb s.view inum).size.toNat
  dirlookup : ∀ name, ((DirCall.dirlookup name).perform sb inum).Returns s fun answer s' =>
    s' = s
    ∧ ((map (nameOf name) = none ∧ answer = .found none)
      ∨ ∃ i target, i < entryCount sb s.view inum
        ∧ slotAt sb s.view inum i = some (nameOf name, target)
        ∧ map (nameOf name) = some target
        ∧ answer = .found (some (target, BitVec.ofNat 32 (Dirent.bytes * i))))
  dirlink : ∀ name target, 0 < target → target < 2 ^ 16
    → ((DirCall.dirlink name target).perform sb inum).Returns s fun answer s' =>
      (answer = .linked (-1) ∨ answer = .linked 0)
      ∧ (answer = .linked (-1) ↔ map (nameOf name) ≠ none ∨ Full sb s.view inum)
      ∧ (answer = .linked (-1) → Unwritten sb inum s.view s'.view)
      ∧ (answer = .linked 0 → ∃ i, LinkedAt sb s.view s'.view inum i (newDirent name target))
  unlink : ∀ name, ((DirCall.unlink name).perform sb inum).Returns s fun answer s' =>
    (map (nameOf name) = none ∧ answer = .unlinked none ∧ s' = s)
    ∨ ∃ i target, i < entryCount sb s.view inum
      ∧ slotAt sb s.view inum i = some (nameOf name, target)
      ∧ map (nameOf name) = some target
      ∧ answer = .unlinked (some (target, BitVec.ofNat 32 (Dirent.bytes * i)))
      ∧ EntryWritten sb inum i ⟨0, fun _ => 0⟩ s.view s'.view

theorem Holds.serves (holds : Holds sb s.view inum map) : Serves sb inum map s := by
  refine ⟨holds.entries.once, holds.whole, fun name => ?_, fun name target _ _ => ?_,
    fun name => ?_⟩
  · obtain ⟨found, looked, reads⟩ := dirlookup_peek holds name
    refine Prog.returns_peek (readInode_peek holds.allocated) ?_
    refine Prog.returns_peek reads (Prog.returns_pure.mpr ⟨rfl, ?_⟩)
    rcases looked.cases holds with ⟨absent, rfl⟩ | ⟨i, target, inside, isHere, present, rfl⟩
    · exact .inl ⟨absent, rfl⟩
    · exact .inr ⟨i, target, inside, isHere, present, rfl⟩
  · refine (dirlink_answers holds name target).mono fun answer s' outcome => ?_
    have different : DirAnswer.linked 0 ≠ .linked (-1) := by decide
    rcases outcome with ⟨cause, rfl, unwritten⟩ | ⟨absent, room, rfl, i, _, linked⟩
    · exact ⟨.inl rfl, iff_of_true rfl cause, fun _ => unwritten,
        fun same => absurd same.symm different⟩
    · refine ⟨.inr rfl, iff_of_false different ?_, fun same => absurd same different,
        fun _ => ⟨i, linked⟩⟩
      rintro (present | full)
      · exact present absent
      · exact room full
  · refine Prog.returns_peek (readInode_peek holds.allocated) ?_
    refine (unlinkEntry_returns holds name).bind fun result s' outcome => Prog.returns_pure.mpr ?_
    rcases outcome with ⟨absent, isNone, same⟩
      | ⟨i, target, inside, isHere, present, isSome, written⟩
    · exact .inl ⟨absent, congrArg _ isNone, same⟩
    · exact .inr ⟨i, target, inside, isHere, present, congrArg _ isSome, written⟩

theorem OpStep.unwritten {op : Op} {s' : Store} (sound : Sound sb s.view)
    (allocated : Allocated sb s.view inum) (step : OpStep sb s op s') (away : ¬op.On inum)
    : Unwritten sb inum s.view s'.view := by
  have kept := step.kept sound
  obtain ⟨allocated', same, bytes⟩ := kept.others inum allocated away
  refine ⟨kept.sound, allocated', congrArg _ same, congrArg (fun dip => dip.size.toNat) same,
    fun j inside => ?_⟩
  exact Dirent.ofMemory_congr fun k within => bytes _ (entry_bound inside within)

-- Runs

/-- One call changes the map as it should. -/
theorem Holds.step {start : Name → Option Nat} {history : List ((DirCall × DirAnswer) × Store)}
    {before after : Store} {action : DirCall × DirAnswer}
    (holds : Holds sb before.view inum (current start history))
    (step : DirStep sb inum before action after)
    : Holds sb after.view inum (current start ((action, before) :: history)) := by
  obtain ⟨call, answer⟩ := action
  obtain ⟨admissible, run⟩ := step
  cases call with
  | dirlookup name =>
    obtain ⟨rfl, outcome⟩ := (holds.serves.dirlookup name).ensures _ _ run
    rcases outcome with ⟨_, rfl⟩ | ⟨_, _, _, _, _, rfl⟩
    · exact holds
    · exact holds
  | dirlink name target =>
    rcases (dirlink_answers holds name target).ensures _ _ run with
      ⟨_, rfl, unwritten⟩ | ⟨absent, _, rfl, i, bound, next, _, free, written⟩
    · exact holds.unwritten unwritten
    · exact holds.link absent admissible.1 admissible.2 next bound free written
  | unlink name =>
    rcases (holds.serves.unlink name).ensures _ _ run with
      ⟨_, rfl, rfl⟩ | ⟨i, target, inside, isHere, _, rfl, written⟩
    · exact holds
    · exact holds.unlink inside isHere written
  | other op =>
    have ends : ((DirCall.other op).perform sb inum).Ensures before fun answer s' =>
        answer = .done ∧ OpStep sb before op s' := by
      refine Prog.Ensures.bind (p := op.perform sb) (fun _ s' ran => ⟨admissible.2, ran⟩)
        fun _ s' taken => Prog.ensures_pure ⟨rfl, taken⟩
    obtain ⟨rfl, taken⟩ := ends _ _ run
    exact holds.unwritten (taken.unwritten holds.sound holds.allocated admissible.1)

theorem Holds.run {start final : Store} {history : List ((DirCall × DirAnswer) × Store)}
    (holds : Holds sb start.view inum map) (run : Run (DirStep sb inum) start history final)
    : Holds sb final.view inum (current map history) := by
  induction run with
  | nil => exact holds
  | next _ taken ih => exact ih.step taken

/-- A name of one byte. -/
def letter (c : Byte) : Chars := fun i => if i = 0 then c else 0

end Xv6.Fs
