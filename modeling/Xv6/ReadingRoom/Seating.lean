import Xv6.ReadingRoom.Readers

/-! The seats of the reading room. Who has taken `SEM_SEATS` is in the room, who has taken
`SEM_MUTEX` is alone at the table, and a seat that is used has one owner.
-/

namespace Xv6.ReadingRoom

open Function Xv6.Library

-- What a reader holds

namespace Point

/-- Between `sem_p(SEM_SEATS)` and `sem_v(SEM_SEATS)`. -/
def inRoom : Point → Bool
  | .start | .takeSeats | .done => false
  | _ => true

/-- Between `sem_p(SEM_MUTEX)` and `sem_v(SEM_MUTEX)`. -/
def holdsMutex : Point → Bool
  | .start | .takeSeats | .takeMutex | .pause _ | .takeAgain _ | .giveSeats | .done => false
  | _ => true

/-- The seat that the reader has marked as used. -/
def owns : Point → Option Seat
  | .setPid slot | .setPhone slot | .loadUp slot | .storeUp slot _ => some slot
  | .giveMutex slot | .pause slot | .takeAgain slot | .leave slot => slot
  | _ => none

/-- The seat that the reader has registered for and not yet given up. -/
def seated : Point → Option Seat
  | .giveMutex slot | .pause slot | .takeAgain slot | .leave slot => slot
  | _ => none

/-- The reader has its seat, but is not counted yet. -/
def uncounted : Point → Bool
  | .setPid _ | .setPhone _ | .loadUp _ | .storeUp _ _ => true
  | _ => false

/-- The reader has left its seat, but is still counted. -/
def overcounted : Point → Bool
  | .clearPid _ | .clearPhone _ | .loadDown | .storeDown _ => true
  | _ => false

/-- The reader has found no seat. -/
def noSeat : Point → Bool
  | .giveMutex none | .pause none | .takeAgain none | .leave none => true
  | _ => false

/-- What a reader knows of the shared data. -/
def Fits (shared : Shared) (pid : BitVec 32) : Point → Prop
  | .scan i => i ≤ MAX_SEATS ∧ ∀ j : Seat, j.val < i → (shared.lib.seats j).used = true
  | .setUsed slot | .clearPid slot | .clearPhone slot => (shared.lib.seats slot).used = false
  | .setPid slot => (shared.lib.seats slot).used = true
  | .setPhone slot | .loadUp slot =>
    (shared.lib.seats slot).used = true ∧ (shared.lib.seats slot).pid = pid
  | .storeUp slot count =>
    ((shared.lib.seats slot).used = true ∧ (shared.lib.seats slot).pid = pid)
    ∧ count = shared.lib.readerCount
  | .giveMutex slot | .pause slot | .takeAgain slot | .leave slot =>
    ∃ i, slot = some i
      ∧ (shared.lib.seats i).used = true ∧ (shared.lib.seats i).pid = pid
  | .storeDown count => count = shared.lib.readerCount
  | _ => True

end Point

variable {P : Type} [Fintype P] {pid : P → BitVec 32}

def State.point (s : State P) (p : P) : Point := (s.process p).point

/-- The number of seats that are used. -/
def Library.usedSeats (lib : Library) : Nat := countWhere Reader.used lib.seats

structure Orderly (pid : P → BitVec 32) (shared : Shared) (point : P → Point) : Prop where
  mutex : shared.semMutex + countWhere Point.holdsMutex point = 1
  mutexFree : 0 ≤ shared.semMutex
  room : shared.semSeats + countWhere Point.inRoom point = MAX_SEATS
  roomFree : 0 ≤ shared.semSeats
  count : shared.lib.readerCount + countWhere Point.uncounted point
    = shared.lib.usedSeats + countWhere Point.overcounted point
  fits : ∀ p, (point p).Fits shared (pid p)
  owner : ∀ i, (shared.lib.seats i).used = true → ∃ p, (point p).owns = some i
  single : ∀ p q i, (point p).owns = some i → (point q).owns = some i → p = q

variable {shared shared' : Shared} {point : P → Point} {p : P} {target : Point}

variable [DecidableEq P]

/-- At most one reader is at the table. -/
theorem Orderly.alone (orderly : Orderly pid shared point) {q : P}
    (holds : (point p).holdsMutex = true) (other : q ≠ p)
    : (point q).holdsMutex = false := by
  by_contra both
  rw [Bool.not_eq_false] at both
  have total := orderly.mutex
  have free := orderly.mutexFree
  have moved := countWhere_update Point.holdsMutex point p .start
  have rest := countWhere_pos Point.holdsMutex (update point p .start) q
    (by rw [update_of_ne other]; exact both)
  rw [holds] at moved
  simp only [Point.holdsMutex, Bool.toNat_true, Bool.toNat_false] at moved
  omega

theorem Point.Fits.frame {pt : Point} {pid : BitVec 32} (fits : pt.Fits shared pid)
    (away : pt.holdsMutex = false)
    (kept : ∀ i, pt.owns = some i → shared'.lib.seats i = shared.lib.seats i)
    : pt.Fits shared' pid := by
  cases pt with
  | pause slot | takeAgain slot =>
    obtain ⟨i, isSlot, used, named⟩ := fits
    exact ⟨i, isSlot, kept i isSlot ▸ used, kept i isSlot ▸ named⟩
  | start | takeSeats | takeMutex | giveSeats | done => trivial
  | scan | setUsed | setPid | setPhone | loadUp | storeUp | giveMutex | leave | clearPid
  | clearPhone | loadDown | storeDown | giveAgain => cases away

/-- A seat that has an owner is used. -/
theorem Point.Fits.used {pt : Point} {pid : BitVec 32} {i : Seat} (fits : pt.Fits shared pid)
    (owns : pt.owns = some i)
    : (shared.lib.seats i).used = true := by
  cases pt with
  | setPid slot =>
    cases owns
    exact fits
  | setPhone slot | loadUp slot =>
    cases owns
    exact fits.1
  | storeUp slot count =>
    cases owns
    exact fits.1.1
  | giveMutex slot | pause slot | takeAgain slot | leave slot =>
    obtain ⟨j, rfl, used, _⟩ := fits
    cases owns
    exact used
  | start | takeSeats | takeMutex | scan | setUsed | clearPid | clearPhone | loadDown | storeDown
  | giveAgain | giveSeats | done => cases owns

/-- The semaphores before and after a step of `p`. -/
structure Balanced (shared shared' : Shared) (before after : Point) : Prop where
  mutex : shared'.semMutex + after.holdsMutex.toNat = shared.semMutex + before.holdsMutex.toNat
  mutexFree : 0 ≤ shared.semMutex → 0 ≤ shared'.semMutex
  room : shared'.semSeats + after.inRoom.toNat = shared.semSeats + before.inRoom.toNat
  roomFree : 0 ≤ shared.semSeats → 0 ≤ shared'.semSeats

/-- A step of `p`, put together. -/
theorem Orderly.step (orderly : Orderly pid shared point)
    (balanced : Balanced shared shared' (point p) target)
    (count : shared'.lib.readerCount + target.uncounted.toNat + shared.lib.usedSeats
        + (point p).overcounted.toNat
      = shared.lib.readerCount + (point p).uncounted.toNat + shared'.lib.usedSeats
        + target.overcounted.toNat)
    (fits : target.Fits shared' (pid p))
    (others : ∀ q, q ≠ p → (point q).Fits shared' (pid q))
    (owner : ∀ i, (shared'.lib.seats i).used = true
      → target.owns = some i ∨ (point p).owns ≠ some i ∧ (shared.lib.seats i).used = true)
    (single
      : ∀ i, target.owns = some i → (point p).owns = some i ∨ (shared.lib.seats i).used = false)
    : Orderly pid shared' (update point p target) := by
  have holders := countWhere_update Point.holdsMutex point p target
  have inside := countWhere_update Point.inRoom point p target
  have up := countWhere_update Point.uncounted point p target
  have down := countWhere_update Point.overcounted point p target
  have mutex := balanced.mutex
  have room := balanced.room
  have total := orderly.mutex
  have places := orderly.room
  have counted := orderly.count
  -- nobody else owns the seat that `p` has now
  have mine (q : P) (i : Seat) (other : q ≠ p) (owns : target.owns = some i)
      : (point q).owns ≠ some i := by
    intro taken
    rcases single i owns with old | unused
    · exact other (orderly.single q p i taken old)
    · rw [(orderly.fits q).used taken] at unused
      cases unused
  refine ⟨by omega, balanced.mutexFree orderly.mutexFree, by omega,
    balanced.roomFree orderly.roomFree, by omega, fun q => ?_, fun i used => ?_,
    fun q r i ownsQ ownsR => ?_⟩
  · by_cases same : q = p
    · rw [same, update_self]
      exact fits
    · rw [update_of_ne same]
      exact others q same
  · rcases owner i used with here | ⟨notMine, old⟩
    · exact ⟨p, by rwa [update_self]⟩
    · obtain ⟨q, owns⟩ := orderly.owner i old
      have other : q ≠ p := fun same => notMine (same ▸ owns)
      exact ⟨q, by rwa [update_of_ne other]⟩
  · by_cases isQ : q = p
    · by_cases isR : r = p
      · rw [isQ, isR]
      · rw [isQ, update_self] at ownsQ
        rw [update_of_ne isR] at ownsR
        exact absurd ownsR (mine r i isR ownsQ)
    · rw [update_of_ne isQ] at ownsQ
      by_cases isR : r = p
      · rw [isR, update_self] at ownsR
        exact absurd ownsQ (mine q i isQ ownsR)
      · rw [update_of_ne isR] at ownsR
        exact orderly.single q r i ownsQ ownsR

variable {pt : Point}

section

variable (orderly : Orderly pid shared point) (here : point p = pt)
include orderly here

/-- A step that leaves the page as it is. -/
theorem Orderly.pass (lib : shared'.lib = shared.lib) (balanced : Balanced shared shared' pt target)
    (up : target.uncounted = pt.uncounted) (down : target.overcounted = pt.overcounted)
    (owns : target.owns = pt.owns) (fits : target.Fits shared (pid p))
    : Orderly pid shared' (update point p target) := by
  subst here
  have same {pt : Point} {pid : BitVec 32} (fits : pt.Fits shared pid) : pt.Fits shared' pid := by
    unfold Point.Fits
    rw [lib]
    exact fits
  refine orderly.step balanced ?_ (same fits) (fun q _ => same (orderly.fits q))
    (fun i used => ?_) fun i mine => .inl (owns ▸ mine)
  · rw [lib, up, down]
  · rw [lib] at used
    by_cases mine : (point p).owns = some i
    · exact .inl (owns.trans mine)
    · exact .inr ⟨mine, used⟩

/-- A step at the table that changes `reader_count`. -/
theorem Orderly.recount {count : Int} (holds : pt.holdsMutex = true)
    (holds' : target.holdsMutex = true) (inRoom : pt.inRoom = true) (inRoom' : target.inRoom = true)
    (moved : count + target.uncounted.toNat + pt.overcounted.toNat
      = shared.lib.readerCount + pt.uncounted.toNat + target.overcounted.toNat)
    (owns : target.owns = pt.owns)
    (fits : target.Fits { shared with lib := { shared.lib with readerCount := count } } (pid p))
    : Orderly pid { shared with lib := { shared.lib with readerCount := count } }
        (update point p target) := by
  subst here
  refine orderly.step ⟨by rw [holds, holds'], id, by rw [inRoom, inRoom'], id⟩ ?_ fits
    (fun q other => ?_) (fun i used => ?_) fun i mine => .inl (owns ▸ mine)
  · change count + _ + (shared.lib.usedSeats : Int) + _ = _ + _ + (shared.lib.usedSeats : Int) + _
    omega
  · exact (orderly.fits q).frame (orderly.alone holds other) fun _ _ => rfl
  · by_cases mine : (point p).owns = some i
    · exact .inl (owns.trans mine)
    · exact .inr ⟨mine, used⟩

/-- A step at the table that writes to a seat of its own, or to one that nobody uses. -/
theorem Orderly.write {slot : Seat} {reader : Reader} (holds : pt.holdsMutex = true)
    (holds' : target.holdsMutex = true) (inRoom : pt.inRoom = true) (inRoom' : target.inRoom = true)
    (mine : pt.owns = some slot ∨ pt.owns = none ∧ (shared.lib.seats slot).used = false)
    (after : target.owns = some slot ∧ reader.used = true
      ∨ target.owns = none ∧ reader.used = false)
    (moved : (target.uncounted.toNat + (shared.lib.seats slot).used.toNat
        + pt.overcounted.toNat : Int)
      = pt.uncounted.toNat + reader.used.toNat + target.overcounted.toNat)
    (fits : target.Fits { shared with lib := shared.lib.set slot reader } (pid p))
    : Orderly pid { shared with lib := shared.lib.set slot reader }
        (update point p target) := by
  subst here
  have here : (shared.lib.set slot reader).seats slot = reader := update_self ..
  have there (i : Seat) (other : i ≠ slot)
      : (shared.lib.set slot reader).seats i = shared.lib.seats i :=
    update_of_ne other ..
  refine orderly.step ⟨by rw [holds, holds'], id, by rw [inRoom, inRoom'], id⟩ ?_ fits
    (fun q other => ?_) (fun i used => ?_) fun i owns => ?_
  · have seats := countWhere_update Reader.used shared.lib.seats slot reader
    change shared.lib.readerCount + _ + (countWhere Reader.used shared.lib.seats : Int) + _
      = shared.lib.readerCount + _
        + (countWhere Reader.used (update shared.lib.seats slot reader) : Int) + _
    omega
  · refine (orderly.fits q).frame (orderly.alone holds other) fun i owns => there i ?_
    rintro rfl
    rcases mine with owned | ⟨_, unused⟩
    · exact other (orderly.single q p i owns owned)
    · rw [(orderly.fits q).used owns] at unused
      cases unused
  · by_cases same : i = slot
    · subst same
      rcases after with ⟨owns, _⟩ | ⟨_, unused⟩
      · exact .inl owns
      · rw [here, unused] at used
        cases used
    · rw [there i same] at used
      refine .inr ⟨fun owns => ?_, used⟩
      rcases mine with owned | ⟨none, _⟩
      · exact same (Option.some.inj (owns.symm.trans owned))
      · rw [none] at owns
        cases owns
  · rcases after with ⟨owns', _⟩ | ⟨none, _⟩
    · obtain rfl : slot = i := Option.some.inj (owns'.symm.trans owns)
      exact mine.imp_right And.right
    · rw [none] at owns
      cases owns

end

-- Steps

theorem Point.inRoom_of_owns {pt : Point} {i : Seat} (owns : pt.owns = some i)
    : pt.inRoom = true := by
  cases pt <;> first | rfl | cases owns

/-- Who has taken both semaphores finds a seat: the owners of all seats would be in the room
together with the reader that has none.
-/
theorem Orderly.free_seat (orderly : Orderly pid shared point) {i : Nat}
    (scans : point p = .scan i)
    : ∃ j : Seat, i ≤ j.val ∧ (shared.lib.seats j).used = false := by
  by_contra none
  have fits := orderly.fits p
  rw [scans] at fits
  have used (j : Seat) : (shared.lib.seats j).used = true := by
    by_cases before : j.val < i
    · exact fits.2 j before
    · by_contra free
      exact none ⟨j, Nat.le_of_not_lt before, Bool.eq_false_iff.mpr free⟩
  have all (j : Seat) : ∃ q, (point q).owns = some j := orderly.owner j (used j)
  choose owner owns using all
  have away (j : Seat) : owner j ≠ p := by
    intro same
    have := owns j
    rw [same, scans] at this
    cases this
  have distinct : Injective owner := by
    intro j k same
    have := owns j
    rw [same, owns k] at this
    exact (Option.some.inj this).symm
  have inRoom : insert p (Finset.univ.image owner)
      ⊆ Finset.univ.filter fun q => (point q).inRoom = true := by
    intro q member
    refine Finset.mem_filter.mpr ⟨Finset.mem_univ q, ?_⟩
    rcases Finset.mem_insert.mp member with rfl | isOwner
    · rw [scans]
      rfl
    · obtain ⟨j, _, rfl⟩ := Finset.mem_image.mp isOwner
      exact Point.inRoom_of_owns (owns j)
  have notOwner : p ∉ Finset.univ.image owner := by
    intro member
    obtain ⟨j, _, same⟩ := Finset.mem_image.mp member
    exact away j same
  have many := Finset.card_le_card inRoom
  rw [Finset.card_insert_of_notMem notOwner, Finset.card_image_of_injective _ distinct,
    Finset.card_univ, Fintype.card_fin, ← countWhere_eq_card] at many
  have places := orderly.room
  have free := orderly.roomFree
  omega

theorem Balanced.refl (shared : Shared) {before after : Point}
    (mutex : after.holdsMutex = before.holdsMutex) (room : after.inRoom = before.inRoom)
    : Balanced shared shared before after :=
  ⟨by rw [mutex], id, by rw [room], id⟩

@[simp] theorem Library.set_same (lib : Library) (i : Seat) (reader : Reader)
    : (lib.set i reader).seats i = reader :=
  update_self ..

theorem Orderly.advance (orderly : Orderly pid shared point) {uptime random : BitVec 32}
    {process : Process} (here : point p = pt)
    (advances : Process.advance (pid p) uptime shared ⟨pt, random⟩ = some (shared', process))
    : Orderly pid shared' (update point p process.point) := by
  have fits := orderly.fits p
  rw [here] at fits
  cases pt with
  | start =>
    cases advances
    exact orderly.pass here rfl (.refl shared rfl rfl) rfl rfl rfl trivial
  | takeSeats =>
    simp only [Process.advance] at advances
    split_ifs at advances with none
    cases advances
    refine orderly.pass here rfl ⟨rfl, id, ?_, fun _ => ?_⟩ rfl rfl rfl trivial
    · change shared.semSeats - 1 + 1 = shared.semSeats + 0
      omega
    · exact Int.sub_nonneg_of_le (Int.not_le.mp none)
  | takeMutex =>
    simp only [Process.advance] at advances
    split_ifs at advances with none
    cases advances
    refine orderly.pass here rfl ⟨?_, fun _ => ?_, rfl, id⟩ rfl rfl rfl ⟨Nat.zero_le _, ?_⟩
    · change shared.semMutex - 1 + 1 = shared.semMutex + 0
      omega
    · exact Int.sub_nonneg_of_le (Int.not_le.mp none)
    · exact fun j before => absurd before (Nat.not_lt_zero _)
  | scan i =>
    obtain ⟨j, isLater, _⟩ := orderly.free_seat here
    have inside : i < MAX_SEATS := isLater.trans_lt j.isLt
    simp only [Process.advance, dif_pos inside] at advances
    split_ifs at advances with used
    · cases advances
      refine orderly.pass here rfl (.refl shared rfl rfl) rfl rfl rfl ⟨inside, fun j before => ?_⟩
      rcases Nat.lt_succ_iff_lt_or_eq.mp before with earlier | same
      · exact fits.2 j earlier
      · have isJ : j = ⟨i, inside⟩ := Fin.ext same
        exact isJ ▸ used
    · cases advances
      refine orderly.pass here rfl (.refl shared rfl rfl) rfl rfl rfl ?_
      exact Bool.eq_false_iff.mpr used
  | setUsed slot =>
    cases advances
    refine orderly.write here rfl rfl rfl rfl (.inr ⟨rfl, fits⟩) (.inl ⟨rfl, rfl⟩) ?_ ?_
    · rw [show (shared.lib.seats slot).used = false from fits]
      rfl
    · simp [Point.Fits]
  | setPid slot =>
    cases advances
    refine orderly.write here rfl rfl rfl rfl (.inl rfl) (.inl ⟨rfl, fits⟩) rfl ?_
    simpa [Point.Fits] using fits
  | setPhone slot =>
    simp only [Process.advance, Option.some.injEq, Prod.mk.injEq] at advances
    obtain ⟨rfl, rfl⟩ := advances
    refine orderly.write here rfl rfl rfl rfl (.inl rfl) (.inl ⟨rfl, fits.1⟩) rfl ?_
    simpa [Point.Fits] using fits
  | loadUp slot =>
    cases advances
    exact orderly.pass here rfl (.refl shared rfl rfl) rfl rfl rfl ⟨fits, rfl⟩
  | storeUp slot count =>
    cases advances
    refine orderly.recount here rfl rfl rfl rfl ?_ rfl ⟨slot, rfl, fits.1⟩
    have loaded : count = shared.lib.readerCount := fits.2
    change count + 1 + 0 + 0 = shared.lib.readerCount + 1 + 0
    omega
  | giveMutex slot =>
    cases advances
    refine orderly.pass here rfl ⟨?_, fun free => ?_, rfl, id⟩ rfl rfl rfl fits
    · exact Int.add_zero _
    · exact Int.add_nonneg free Int.one_nonneg
  | pause slot =>
    cases advances
    exact orderly.pass here rfl (.refl shared rfl rfl) rfl rfl rfl fits
  | takeAgain slot =>
    simp only [Process.advance] at advances
    split_ifs at advances with none
    cases advances
    refine orderly.pass here rfl ⟨?_, fun _ => ?_, rfl, id⟩ rfl rfl rfl fits
    · change shared.semMutex - 1 + 1 = shared.semMutex + 0
      omega
    · exact Int.sub_nonneg_of_le (Int.not_le.mp none)
  | leave slot =>
    obtain ⟨i, rfl, used, named⟩ := fits
    cases advances
    refine orderly.write here rfl rfl rfl rfl (.inl rfl) (.inr ⟨rfl, rfl⟩) ?_ ?_
    · rw [used]
      rfl
    · simp [Point.Fits]
  | clearPid slot =>
    cases advances
    refine orderly.write here rfl rfl rfl rfl (.inr ⟨rfl, fits⟩) (.inr ⟨rfl, fits⟩) rfl ?_
    simpa [Point.Fits] using fits
  | clearPhone slot =>
    cases advances
    exact orderly.write here rfl rfl rfl rfl (.inr ⟨rfl, fits⟩) (.inr ⟨rfl, fits⟩) rfl trivial
  | loadDown =>
    cases advances
    exact orderly.pass here rfl (.refl shared rfl rfl) rfl rfl rfl rfl
  | storeDown count =>
    cases advances
    refine orderly.recount here rfl rfl rfl rfl ?_ rfl trivial
    have loaded : count = shared.lib.readerCount := fits
    change count - 1 + 0 + 1 = shared.lib.readerCount + 0 + 0
    omega
  | giveAgain =>
    cases advances
    refine orderly.pass here rfl ⟨?_, fun free => ?_, rfl, id⟩ rfl rfl rfl trivial
    · exact Int.add_zero _
    · exact Int.add_nonneg free Int.one_nonneg
  | giveSeats =>
    cases advances
    refine orderly.pass here rfl ⟨rfl, id, ?_, fun free => ?_⟩ rfl rfl rfl trivial
    · exact Int.add_zero _
    · exact Int.add_nonneg free Int.one_nonneg
  | done => cases advances

-- Runs

omit [DecidableEq P] in
theorem Orderly.initial {start : State P} (initial : Initial start)
    : Orderly pid start.shared start.point := by
  obtain ⟨isInitial, atStart⟩ := initial
  have points : start.point = fun _ => Point.start := funext atStart
  have none {property : Point → Bool} (not : property .start = false)
      : countWhere property start.point = 0 :=
    countWhere_eq_zero.mpr fun p => by rw [points, not]
  have unused : countWhere Reader.used Shared.initial.lib.seats = 0 := by decide
  rw [isInitial]
  refine ⟨?_, by decide, ?_, by decide, ?_, fun p => ?_, fun i used => ?_, fun p q i owns _ => ?_⟩
  · rw [none rfl]
    rfl
  · rw [none rfl]
    rfl
  · rw [none rfl, none rfl, Library.usedSeats, unused]
    rfl
  · rw [points]
    trivial
  · cases used
  · rw [points] at owns
    cases owns

theorem Orderly.run {start final : State P} {history : List (Action P × State P)}
    (initial : Initial start) (run : Run (Step pid) start history final)
    : Orderly pid final.shared final.point := by
  induction run with
  | nil => exact .initial initial
  | @next history before action after _ taken ih =>
    obtain ⟨⟨shared, process⟩, advances, rfl⟩ := Option.map_eq_some_iff.mp taken
    have moved : State.point ⟨shared, update before.process action.p process⟩
        = update before.point action.p process.point :=
      comp_update Process.point before.process action.p process
    rw [moved]
    exact ih.advance rfl advances

theorem Point.owns_of_seated {pt : Point} {i : Seat} (seated : pt.seated = some i)
    : pt.owns = some i := by
  cases pt <;> first | exact seated | cases seated

theorem Point.Fits.seated {pt : Point} {pid : BitVec 32} {i : Seat} (fits : pt.Fits shared pid)
    (seated : pt.seated = some i)
    : (shared.lib.seats i).used = true ∧ (shared.lib.seats i).pid = pid := by
  cases pt with
  | giveMutex slot | pause slot | takeAgain slot | leave slot =>
    obtain ⟨j, rfl, facts⟩ := fits
    cases seated
    exact facts
  | start | takeSeats | takeMutex | scan | setUsed | setPid | setPhone | loadUp | storeUp
  | clearPid | clearPhone | loadDown | storeDown | giveAgain | giveSeats | done => cases seated

theorem Point.Fits.noSeat {pt : Point} {pid : BitVec 32} (fits : pt.Fits shared pid)
    : pt.noSeat = false := by
  cases pt with
  | giveMutex slot | pause slot | takeAgain slot | leave slot =>
    obtain ⟨_, rfl, _⟩ := fits
    rfl
  | start | takeSeats | takeMutex | scan | setUsed | setPid | setPhone | loadUp | storeUp
  | clearPid | clearPhone | loadDown | storeDown | giveAgain | giveSeats | done => rfl

omit [DecidableEq P] in
theorem Orderly.counted (orderly : Orderly pid shared point) (free : 0 < shared.semMutex)
    : shared.lib.readerCount = shared.lib.usedSeats := by
  have total := orderly.mutex
  have count := orderly.count
  have nobody : countWhere Point.holdsMutex point = 0 := by omega
  have away (property : Point → Bool)
      (atTable : ∀ pt : Point, pt.holdsMutex = false → property pt = false)
      : countWhere property point = 0 :=
    countWhere_eq_zero.mpr fun p => atTable _ (countWhere_eq_zero.mp nobody p)
  have up := away Point.uncounted fun pt out => by cases pt <;> first | rfl | cases out
  have down := away Point.overcounted fun pt out => by cases pt <;> first | rfl | cases out
  omega

/-- At any time at most `MAX_SEATS` readers are in the room. Who has taken both semaphores finds a
free seat, readers that are seated have different seats that hold their own pid, and
`reader_count` is the number of used seats whenever `SEM_MUTEX` is free.
-/
theorem reading_room_is_orderly {start final : State P} {history : List (Action P × State P)}
    (initial : Initial start) (run : Run (Step pid) start history final)
    : (Finset.univ.filter fun p => (final.point p).inRoom = true).card ≤ MAX_SEATS
      ∧ (∀ p, (final.point p).noSeat = false)
      ∧ (∀ p i, final.point p = .scan i
        → ∃ j : Seat, i ≤ j.val ∧ (final.shared.lib.seats j).used = false)
      ∧ (∀ p q i, (final.point p).seated = some i → (final.point q).seated = some i → p = q)
      ∧ (∀ p i, (final.point p).seated = some i
        → (final.shared.lib.seats i).used = true ∧ (final.shared.lib.seats i).pid = pid p)
      ∧ (0 < final.shared.semMutex
        → final.shared.lib.readerCount = final.shared.lib.usedSeats) := by
  have orderly : Orderly pid final.shared final.point := .run initial run
  refine ⟨?_, fun p => (orderly.fits p).noSeat, fun p i => orderly.free_seat,
    fun p q i atP atQ => ?_, fun p i => (orderly.fits p).seated, orderly.counted⟩
  · rw [← countWhere_eq_card]
    have places := orderly.room
    have free := orderly.roomFree
    omega
  · exact orderly.single p q i (Point.owns_of_seated atP) (Point.owns_of_seated atQ)

/-- Two readers before their first step. -/
def twoReaders : State Bool := ⟨.initial, fun _ => ⟨.start, 1⟩⟩

/-- The first reader goes to its seat, and then the second one. -/
def bothSit : List (Action Bool) :=
  List.replicate 10 ⟨false, 7⟩ ++ List.replicate 11 ⟨true, 8⟩

/-- They have different seats. -/
theorem two_readers_are_orderly
    : ∃ history final, Run (Step fun p => if p then 4 else 3) twoReaders history final
      ∧ final.point false = .pause (some 0) ∧ final.point true = .pause (some 1)
      ∧ final.shared.lib.readerCount = final.shared.lib.usedSeats
      ∧ final.shared.lib.readerCount = 2 := by
  obtain ⟨history, final, run, _, first, second, free, count⟩ := run_of_follows
    (labelled_sound (State.step fun p => if p then 4 else 3)) twoReaders bothSit
    (fun _ final => final.point false = .pause (some 0) ∧ final.point true = .pause (some 1)
      ∧ 0 < final.shared.semMutex ∧ final.shared.lib.readerCount = 2)
    (by decide +kernel)
  have orderly := reading_room_is_orderly ⟨rfl, fun _ => rfl⟩ run
  exact ⟨history, final, run, first, second, orderly.2.2.2.2.2 free, count⟩

end Xv6.ReadingRoom
