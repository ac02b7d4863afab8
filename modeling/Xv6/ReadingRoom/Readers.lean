import Xv6.Library.Counting
import Xv6.Library.Runs

/-! `reader_process` of `user/library.c`. The readers share the page of the library and two
semaphores, whose `sem_p` and `sem_v` are single steps. A step of a reader is one access to the
page or one call on a semaphore.
-/

namespace Xv6.ReadingRoom

open Function Xv6.Library

-- The shared page

abbrev MAX_SEATS : Nat := 5

abbrev Seat := Fin MAX_SEATS

/-- The character `'\0'`. -/
abbrev NUL : Char := Char.ofNat 0

/-- `struct reader`; `used` is 0 or 1. -/
structure Reader where
  pid : BitVec 32
  phone : List Char
  used : Bool
  deriving DecidableEq

/-- `struct library`. -/
structure Library where
  seats : Seat → Reader
  readerCount : Int

/-- The page and the values of `SEM_SEATS` and `SEM_MUTEX`. -/
structure Shared where
  lib : Library
  semSeats : Int
  semMutex : Int

/-- What `main` leaves to the readers. -/
def Shared.initial : Shared where
  lib := ⟨fun _ => ⟨0, List.replicate 16 NUL, false⟩, 0⟩
  semSeats := MAX_SEATS
  semMutex := 1

def Library.set (lib : Library) (i : Seat) (reader : Reader) : Library :=
  { lib with seats := update lib.seats i reader }

-- Telephone numbers

/-- `rand`, with the new value of `next_random`. -/
def rand (nextRandom : BitVec 32) : Nat × BitVec 32 :=
  let nextRandom := nextRandom * 1103515245 + 12345
  ((nextRandom.toNat / 65536) % 32768, nextRandom)

/-- A loop that writes random digits. -/
def digits : Nat → BitVec 32 → List Char × BitVec 32
  | 0, nextRandom => ([], nextRandom)
  | count + 1, nextRandom =>
    let (value, nextRandom) := rand nextRandom
    let (rest, nextRandom) := digits count nextRandom
    (Char.ofNat ('0'.toNat + value % 10) :: rest, nextRandom)

def generatePhone (nextRandom : BitVec 32) : List Char × BitVec 32 :=
  let (first, nextRandom) := digits 4 nextRandom
  let (second, nextRandom) := digits 4 nextRandom
  (['1', '3', '8', '-'] ++ first ++ ['-'] ++ second ++ [NUL], nextRandom)

-- Readers

/-- What a reader does next. `slot` is `none` while it is -1; `count` is the value of
`reader_count` that an increment or decrement has loaded.
-/
inductive Point where
  | start
  | takeSeats
  | takeMutex
  | scan (i : Nat)
  | setUsed (slot : Seat)
  | setPid (slot : Seat)
  | setPhone (slot : Seat)
  | loadUp (slot : Seat)
  | storeUp (slot : Seat) (count : Int)
  | giveMutex (slot : Option Seat)
  | pause (slot : Option Seat)
  | takeAgain (slot : Option Seat)
  | leave (slot : Option Seat)
  | clearPid (slot : Seat)
  | clearPhone (slot : Seat)
  | loadDown
  | storeDown (count : Int)
  | giveAgain
  | giveSeats
  | done
  deriving DecidableEq

/-- A process: its next step and its `next_random`. -/
structure Process where
  point : Point
  nextRandom : BitVec 32

/-- A step of a reader, if it is not blocked. -/
def Process.advance (pid : BitVec 32) (uptime : BitVec 32) (shared : Shared) (process : Process)
    : Option (Shared × Process) :=
  let lib := shared.lib
  let goTo (point : Point) : Process := { process with point := point }
  match process.point with
  | .start => some (shared, { point := .takeSeats, nextRandom := pid + uptime })
  | .takeSeats =>
    if shared.semSeats ≤ 0 then none
    else some ({ shared with semSeats := shared.semSeats - 1 }, goTo .takeMutex)
  | .takeMutex =>
    if shared.semMutex ≤ 0 then none
    else some ({ shared with semMutex := shared.semMutex - 1 }, goTo (.scan 0))
  | .scan i =>
    if inside : i < MAX_SEATS then
      if (lib.seats ⟨i, inside⟩).used then some (shared, goTo (.scan (i + 1)))
      else some (shared, goTo (.setUsed ⟨i, inside⟩))
    else
      -- "acquired semaphore but no seat found!"
      some (shared, goTo (.giveMutex none))
  | .setUsed slot =>
    some ({ shared with lib := lib.set slot { lib.seats slot with used := true } },
      goTo (.setPid slot))
  | .setPid slot =>
    some ({ shared with lib := lib.set slot { lib.seats slot with pid := pid } },
      goTo (.setPhone slot))
  | .setPhone slot =>
    let (phone, nextRandom) := generatePhone process.nextRandom
    some ({ shared with
        lib := lib.set slot { lib.seats slot with
          phone := phone ++ (lib.seats slot).phone.drop phone.length } },
      { point := .loadUp slot, nextRandom := nextRandom })
  | .loadUp slot => some (shared, goTo (.storeUp slot lib.readerCount))
  | .storeUp slot count =>
    some ({ shared with lib := { lib with readerCount := count + 1 } },
      goTo (.giveMutex (some slot)))
  | .giveMutex slot =>
    some ({ shared with semMutex := shared.semMutex + 1 }, goTo (.pause slot))
  | .pause slot => some (shared, goTo (.takeAgain slot))
  | .takeAgain slot =>
    if shared.semMutex ≤ 0 then none
    else some ({ shared with semMutex := shared.semMutex - 1 }, goTo (.leave slot))
  | .leave none => some (shared, goTo .giveAgain)
  | .leave (some slot) =>
    some ({ shared with lib := lib.set slot { lib.seats slot with used := false } },
      goTo (.clearPid slot))
  | .clearPid slot =>
    some ({ shared with lib := lib.set slot { lib.seats slot with pid := 0 } },
      goTo (.clearPhone slot))
  | .clearPhone slot =>
    some ({ shared with
        lib := lib.set slot { lib.seats slot with phone := List.replicate 16 NUL } },
      goTo .loadDown)
  | .loadDown => some (shared, goTo (.storeDown lib.readerCount))
  | .storeDown count =>
    some ({ shared with lib := { lib with readerCount := count - 1 } }, goTo .giveAgain)
  | .giveAgain =>
    some ({ shared with semMutex := shared.semMutex + 1 }, goTo .giveSeats)
  | .giveSeats =>
    some ({ shared with semSeats := shared.semSeats + 1 }, goTo .done)
  | .done => none

structure State (P : Type) where
  shared : Shared
  process : P → Process

/-- Reader `p` takes a step; `uptime` is the time if it asks for it. -/
structure Action (P : Type) where
  p : P
  uptime : BitVec 32

variable {P : Type} [DecidableEq P]

/-- The state after the step, if the reader is not blocked. -/
def State.step (pid : P → BitVec 32) (s : State P) (action : Action P) : Option (State P) :=
  ((s.process action.p).advance (pid action.p) action.uptime s.shared).map fun result =>
    ⟨result.1, update s.process action.p result.2⟩

abbrev Step (pid : P → BitVec 32) (before : State P) (action : Action P) (after : State P) : Prop :=
  before.step pid action = some after

/-- All readers before their first step, whatever `next_random` they start with. -/
def Initial (s : State P) : Prop :=
  s.shared = .initial ∧ ∀ p, (s.process p).point = .start

end Xv6.ReadingRoom
