import Xv6.Ramdisk.ByteArray

/-! `filewrite` of `kernel/file.c` to the ramdisk, by processes that share one `struct file` of type
`FD_DEVICE`. A call reads the offset of the file, transfers its bytes and then moves the offset.
There is no lock around the three.
-/

namespace Xv6.Ramdisk.SharedOffset

open Function Library Vm

-- Calls

/-- A call: the bytes of its buffer and its count. -/
structure Call where
  src : Nat → Byte
  n : BitVec 32

/-- Where a call is: it has fetched the offset for `rd_write`, has the result of `rd_write`, or has
returned. The offset that it fetched is kept to the end.
-/
inductive Point where
  | start
  | fetched (off : BitVec 32)
  | transferred (off ret : BitVec 32)
  | returned (off ret : BitVec 32)
  deriving DecidableEq

/-- The file and the ramdisk. -/
structure State (ι : Type) where
  writable : Bool
  off : BitVec 32
  dev : Ramdisk.State
  point : ι → Point

inductive Action (ι : Type) where
  | fetch (c : ι)
  | transfer (c : ι)
  | advance (c : ι)

variable {ι : Type} [DecidableEq ι]

def State.goTo (s : State ι) (c : ι) (point : Point) : State ι :=
  { s with point := update s.point c point }

/-- A step of a call, if that is what it does next. -/
def State.step (layout : Layout) (calls : ι → Call) (s : State ι) : Action ι → Option (State ι)
  | .fetch c =>
    match s.point c with
    | .start =>
      -- devsw has an entry while the ramdisk is loaded
      if s.writable ∧ s.dev.loaded then some (s.goTo c (.fetched s.off))
      else some (s.goTo c (.returned s.off (-1)))
    | _ => none
  | .transfer c =>
    match s.point c with
    | .fetched off =>
      match (Ramdisk.Action.write (calls c).src off (calls c).n).run layout s.dev.fresh with
      | .ok ((ret, _), dev) => some ({ s with dev := dev }.goTo c (.transferred off ret))
      | .error _ => none
    | _ => none
  | .advance c =>
    match s.point c with
    | .transferred off ret =>
      some ({ s with off := if 0 < ret.toInt then s.off + ret else s.off }.goTo c
        (.returned off ret))
    | _ => none

abbrev Step (layout : Layout) (calls : ι → Call) (before : State ι) (action : Action ι)
    (after : State ι)
    : Prop :=
  before.step layout calls action = some after

/-- The offset that a call uses, between its fetch and its move of the offset. -/
def Point.uses : Point → Option (BitVec 32)
  | .fetched off | .transferred off _ => some off
  | .start | .returned _ _ => none

/-- The offset and the result of a call that has called `rd_write`. -/
def Point.wrote : Point → Option (BitVec 32 × BitVec 32)
  | .transferred off ret | .returned off ret => some (off, ret)
  | .start | .fetched _ => none

/-- No other call uses the offset when a call fetches it. -/
def Alone (before : State ι) : Action ι → Prop
  | .fetch c => ∀ other, other ≠ c → (before.point other).uses = none
  | .transfer _ | .advance _ => True

/-- The range of a call that has returned. -/
def rangeOf (call : Call) : Point → Finset Nat
  | .returned off _ => Finset.Ico off.toNat (off.toNat + call.n.toNat)
  | _ => ∅

variable {layout : Layout} {frames : List Nat}

-- Pages of a transfer

/-- Reading pages that are there needs no memory. -/
theorem rdReadLoop_present {dev : Ramdisk.State} {off n rounds total : Nat}
    (fits : off + n ≤ RD_SIZE) (most : total ≤ n) (enough : n ≤ total + rounds)
    (present : ∀ i < n, (dev.pages ((off + i) / 4096)).isSome = true)
    : rdReadLoop layout off n rounds total (chunk (contents dev) off total) dev
      = .ok ((BitVec.ofNat 32 n, chunk (contents dev) off n), dev) := by
  induction rounds generalizing total with
  | zero =>
    obtain rfl : total = n := by omega
    rfl
  | succ rounds ih =>
    rw [Ramdisk.rdReadLoop]
    by_cases more : total < n
    · have below := page_lt fits more
      have offset : (off + total) % 4096 < 4096 := Nat.mod_lt _ (by decide)
      obtain ⟨pa, here⟩ := Option.isSome_iff_exists.mp (present total more)
      rw [if_pos more, bind_ok (rdWalk_found below here false)]
      set m := min (4096 - (off + total) % 4096) (n - total) with isMin
      dsimp only
      have load : onPhys (loadBytes pa ((off + total) % 4096) m) dev
          = .ok (chunk (contents dev) (off + total) m, dev) := by
        rw [chunk_page here (by omega)]
        rfl
      rw [bind_ok load, chunk_append]
      exact ih (by omega) (by omega)
    · rw [if_neg more]
      obtain rfl : total = n := by omega
      rfl

-- One transfer

/-- All bytes of the call are on the disk, on pages of their own. -/
structure OnDisk (dev : Ramdisk.State) (off : BitVec 32) (call : Call) : Prop where
  loaded : dev.loaded = true
  start : off.toNat < RD_SIZE
  fits : off.toNat + call.n.toNat ≤ RD_SIZE
  present : ∀ i < call.n.toNat, (dev.pages ((off.toNat + i) / 4096)).isSome = true
  bytes : ∀ i < call.n.toNat, contents dev (off.toNat + i) = call.src i

theorem toNat_of_nonneg {n : BitVec 32} (nonneg : 0 ≤ n.toInt) : (n.toNat : Int) = n.toInt := by
  have value := BitVec.toInt_eq_toNat_cond n
  split_ifs at value <;> omega

/-- What is on the disk can be read back. -/
theorem OnDisk.read {dev : Ramdisk.State} {off : BitVec 32} {call : Call}
    (onDisk : OnDisk dev off call) (nonneg : 0 ≤ call.n.toInt)
    : (Ramdisk.Action.read off call.n).run layout dev.fresh
      = .ok ((call.n, (List.range call.n.toNat).map call.src), dev.fresh) := by
  have whole : span off call.n = call.n.toNat :=
    min_eq_left (by have := onDisk.fits; omega)
  have here : ¬(dev.fresh.loaded = false ∨ RD_SIZE ≤ off.toNat) := by
    rw [absent_iff onDisk.start]
    exact ne_false_of_eq_true onDisk.loaded
  rw [Ramdisk.Action.run, rdRead, bind_ok (get_run _), if_neg here]
  rw [clamp_eq_span onDisk.start nonneg, whole]
  have loop := @rdReadLoop_present layout dev.fresh off.toNat call.n.toNat call.n.toNat 0
    onDisk.fits (Nat.zero_le _) (Nat.le_add_left _ 0) onDisk.present
  have same : chunk (contents dev.fresh) off.toNat call.n.toNat
      = (List.range call.n.toNat).map call.src :=
    List.map_congr_left fun i member => onDisk.bytes i (List.mem_range.mp member)
  rw [same, BitVec.ofNat_toNat] at loop
  exact loop

/-- A transfer that returns its count has put all bytes of the call on the disk. -/
theorem transfer_spec {dev dev' : Ramdisk.State} (ready : Ready layout frames dev) {call : Call}
    {off ret : BitVec 32} {bytes : List Byte} (nonneg : 0 ≤ call.n.toInt)
    (run : (Ramdisk.Action.write call.src off call.n).run layout dev.fresh
      = .ok ((ret, bytes), dev'))
    : Ready layout frames dev'
      ∧ (ret = call.n → Keeps dev dev' ∧ OnDisk dev' off call
        ∧ contents dev' = put (contents dev) off.toNat call.src 0 call.n.toNat) := by
  -- a result of -1 is no count
  have failed (isError : ret = -1) : ret ≠ call.n := by
    intro same
    rw [← same, isError] at nonneg
    exact absurd nonneg (by decide)
  by_cases absent : dev.fresh.loaded = false ∨ RD_SIZE ≤ off.toNat
  · rw [Ramdisk.Action.run, rdWrite, bind_assoc, bind_ok (get_run _), if_pos absent] at run
    cases run
    exact ⟨⟨ready.owns.fresh, ready.unloaded⟩, fun whole => absurd whole (failed rfl)⟩
  · obtain ⟨loaded, start⟩ := not_or.mp absent
    have start := Nat.lt_of_not_le start
    have loaded : dev.loaded = true := eq_true_of_ne_false loaded
    have owns := ready.owns.fresh
    have fits : off.toNat + span off call.n ≤ RD_SIZE := by
      unfold span
      omega
    obtain ⟨r, after, loop, written, kept, placed⟩ :=
      @Owns.rdWriteLoop layout frames dev.fresh owns call.src off.toNat (span off call.n)
        (span off call.n) 0 fits (Nat.zero_le _) (Nat.le_add_left _ 0)
    rw [Ramdisk.Action.run, rdWrite, bind_assoc, bind_ok (get_run _), if_neg absent] at run
    rw [clamp_eq_span start nonneg, bind_ok loop] at run
    cases run
    have stillLoaded : dev'.loaded = true := written.loaded.trans loaded
    refine ⟨⟨written.owns, fun off => by rw [stillLoaded] at off; cases off⟩, fun whole => ?_⟩
    obtain ⟨last, _, bound, stored, _, result⟩ := written.stored
    obtain ⟨end_, bound', result', present⟩ := placed
    have least : span off call.n ≤ call.n.toNat := min_le_left _ _
    have isCount {last : Nat} (bound : last ≤ span off call.n)
        (result : ret = BitVec.ofNat 32 last ∨ ret = -1)
        : last = call.n.toNat := by
      have isLast := result.resolve_right fun isError => failed isError whole
      have value := congrArg BitVec.toNat (isLast.symm.trans whole)
      rw [BitVec.toNat_ofNat, Nat.mod_eq_of_lt (by omega)] at value
      exact value
    obtain rfl := isCount bound' result'
    have isSpan : span off call.n = call.n.toNat := by omega
    rw [isSpan] at fits
    rw [isCount bound (result.imp_right And.left)] at stored
    refine ⟨kept, ⟨stillLoaded, start, fits, fun i => present i (Nat.zero_le i),
      fun i inside => ?_⟩, stored⟩
    rw [stored, put, if_pos (by omega), Nat.add_sub_cancel_left]

-- Steps

variable {calls : ι → Call} {before after : State ι} {action : Action ι}

@[simp] theorem goTo_self (s : State ι) (c : ι) (point : Point)
    : (s.goTo c point).point c = point :=
  update_self ..

theorem goTo_other (s : State ι) {c other : ι} (point : Point) (differ : other ≠ c)
    : (s.goTo c point).point other = s.point other :=
  update_of_ne differ ..

/-- What a step can do. -/
theorem Step.cases (taken : Step layout calls before action after)
    : (∃ c, action = .fetch c ∧ before.point c = .start
        ∧ (after = before.goTo c (.fetched before.off)
          ∨ after = before.goTo c (.returned before.off (-1))))
      ∨ (∃ c off ret bytes dev, action = .transfer c ∧ before.point c = .fetched off
        ∧ (Ramdisk.Action.write (calls c).src off (calls c).n).run layout before.dev.fresh
          = .ok ((ret, bytes), dev)
        ∧ after = { before with dev := dev }.goTo c (.transferred off ret))
      ∨ (∃ c off ret, action = .advance c ∧ before.point c = .transferred off ret
        ∧ after = { before with off := if 0 < ret.toInt then before.off + ret else before.off }.goTo
            c (.returned off ret)) := by
  unfold Step at taken
  cases action with
  | fetch c =>
    simp only [State.step] at taken
    split at taken
    · rename_i isStart
      split at taken
      · exact .inl ⟨c, rfl, isStart, .inl (Option.some.inj taken).symm⟩
      · exact .inl ⟨c, rfl, isStart, .inr (Option.some.inj taken).symm⟩
    · cases taken
  | transfer c =>
    simp only [State.step] at taken
    split at taken
    · rename_i off isFetched
      split at taken
      · rename_i ret bytes dev run
        exact .inr (.inl ⟨c, off, ret, bytes, dev, rfl, isFetched, run,
          (Option.some.inj taken).symm⟩)
      · cases taken
    · cases taken
  | advance c =>
    simp only [State.step] at taken
    split at taken
    · rename_i off ret isTransferred
      exact .inr (.inr ⟨c, off, ret, rfl, isTransferred, (Option.some.inj taken).symm⟩)
    · cases taken

/-- A call keeps the offset and the result of its transfer. -/
theorem Step.wrote (taken : Step layout calls before action after) {c : ι}
    {pair : BitVec 32 × BitVec 32} (wrote : (before.point c).wrote = some pair)
    : (after.point c).wrote = some pair := by
  have kept {s : State ι} {d : ι} {point : Point} (points : s.point = before.point)
      (notYet : (before.point d).wrote = none)
      : ((s.goTo d point).point c).wrote = some pair := by
    have other : c ≠ d := by
      rintro rfl
      cases notYet.symm.trans wrote
    rw [goTo_other _ _ other, points]
    exact wrote
  rcases taken.cases with ⟨d, _, isStart, rfl | rfl⟩ | ⟨d, off, ret, _, _, _, isFetched, _, rfl⟩
    | ⟨d, off, ret, _, isTransferred, rfl⟩
  · exact kept rfl (by rw [isStart]; rfl)
  · exact kept rfl (by rw [isStart]; rfl)
  · exact kept rfl (by rw [isFetched]; rfl)
  · by_cases same : c = d
    · subst same
      rw [isTransferred] at wrote
      rw [goTo_self]
      exact wrote
    · rw [goTo_other _ _ same]
      exact wrote

-- The invariant

/-- A call did not get its whole count. -/
def Short (calls : ι → Call) (s : State ι) : Prop :=
  ∃ c off ret, (s.point c).wrote = some (off, ret) ∧ ret ≠ (calls c).n

/-- What a call has added to the offset. -/
def Point.moved (call : Call) : Point → Nat
  | .returned _ _ => call.n.toNat
  | .start | .fetched _ | .transferred _ _ => 0

/-- Ranges stay apart if the new range of one call is apart from all others. -/
theorem apart_goTo {s : State ι} {c : ι} {point : Point}
    (apart : ∀ c other, c ≠ other
      → Disjoint (rangeOf (calls c) (s.point c)) (rangeOf (calls other) (s.point other)))
    (fresh : ∀ other, other ≠ c
      → Disjoint (rangeOf (calls c) point) (rangeOf (calls other) (s.point other)))
    : ∀ d other, d ≠ other
      → Disjoint (rangeOf (calls d) ((s.goTo c point).point d))
          (rangeOf (calls other) ((s.goTo c point).point other)) := by
  intro d other differ
  by_cases isCall : d = c
  · subst isCall
    rw [goTo_self, goTo_other _ _ differ.symm]
    exact fresh other differ.symm
  · rw [goTo_other _ _ isCall]
    by_cases isOther : other = c
    · subst isOther
      rw [goTo_self]
      exact (fresh d isCall).symm
    · rw [goTo_other _ _ isOther]
      exact apart d other differ

variable [Fintype ι]

/-- The ranges of the calls that have returned lie one after the other below the offset. -/
structure Laid (calls : ι → Call) (first : Nat) (s : State ι) : Prop where
  off : s.off.toNat = first + ∑ c, (s.point c).moved (calls c)
  here : ∀ c off, (s.point c).uses = some off
    → off = s.off ∧ ∀ other, other ≠ c → (s.point other).uses = none
  stored : ∀ c off ret, (s.point c).wrote = some (off, ret) → OnDisk s.dev off (calls c)
  below : ∀ c off ret, s.point c = .returned off ret
    → off.toNat + (calls c).n.toNat ≤ s.off.toNat
  apart : ∀ c other, c ≠ other
    → Disjoint (rangeOf (calls c) (s.point c)) (rangeOf (calls other) (s.point other))

variable {first : Nat}

theorem moved_goTo (calls : ι → Call) (s : State ι) (c : ι) (point : Point)
    : ∑ d, ((s.goTo c point).point d).moved (calls d) + (s.point c).moved (calls c)
      = ∑ d, (s.point d).moved (calls d) + point.moved (calls c) :=
  sum_update (fun d point => point.moved (calls d)) s.point c point

/-- A step of call `c` while no other call uses the offset, put together. -/
theorem Laid.goTo (laid : Laid calls first before) {c : ι} {point : Point} {dev : Ramdisk.State}
    {off : BitVec 32}
    (moves : off.toNat + (before.point c).moved (calls c)
      = before.off.toNat + point.moved (calls c))
    (onward : before.off.toNat ≤ off.toNat) (mine : ∀ used, point.uses = some used → used = off)
    (others : ∀ other, other ≠ c → (before.point other).uses = none)
    (stored : ∀ used ret, point.wrote = some (used, ret) → OnDisk dev used (calls c))
    (kept : ∀ d used ret, d ≠ c → (before.point d).wrote = some (used, ret)
      → OnDisk dev used (calls d))
    (below : ∀ used ret, point = .returned used ret → used.toNat + (calls c).n.toNat ≤ off.toNat)
    (fresh : ∀ other, other ≠ c
      → Disjoint (rangeOf (calls c) point) (rangeOf (calls other) (before.point other)))
    : Laid calls first ({ before with dev := dev, off := off }.goTo c point) := by
  have moved := moved_goTo calls { before with dev := dev, off := off } c point
  refine ⟨?_, fun d used uses => ?_, fun d used ret wrote => ?_, fun d used ret returned => ?_,
    apart_goTo laid.apart fresh⟩
  · change off.toNat = _
    change _ + (before.point c).moved _ = ∑ d, (before.point d).moved _ + _ at moved
    have sum := laid.off
    omega
  · by_cases isCall : d = c
    · subst isCall
      rw [goTo_self] at uses
      refine ⟨mine used uses, fun other differ => ?_⟩
      rw [goTo_other _ _ differ]
      exact others other differ
    · rw [goTo_other _ _ isCall] at uses
      exact absurd ((others d isCall).symm.trans uses) (by simp)
  · by_cases isCall : d = c
    · subst isCall
      rw [goTo_self] at wrote
      exact stored used ret wrote
    · rw [goTo_other _ _ isCall] at wrote
      exact kept d used ret isCall wrote
  · by_cases isCall : d = c
    · subst isCall
      rw [goTo_self] at returned
      exact below used ret returned
    · rw [goTo_other _ _ isCall] at returned
      exact (laid.below d used ret returned).trans onward

theorem Laid.fetch (laid : Laid calls first before) {c : ι} (isStart : before.point c = .start)
    (alone : ∀ other, other ≠ c → (before.point other).uses = none)
    : Laid calls first (before.goTo c (.fetched before.off)) :=
  laid.goTo (by rw [isStart]; rfl) (Nat.le_refl _)
    (fun _ uses => (Option.some.inj uses).symm) alone (fun _ _ wrote => by cases wrote)
    (fun d used ret _ => laid.stored d used ret) (fun _ _ returned => by cases returned)
    fun _ _ => Finset.disjoint_empty_left _

/-- The bytes of a transfer leave those below the offset alone. -/
theorem Laid.transfer (laid : Laid calls first before) {c : ι} {off ret : BitVec 32}
    {dev : Ramdisk.State} (isFetched : before.point c = .fetched off)
    (kept : Keeps before.dev dev) (onDisk : OnDisk dev off (calls c))
    (bytes : contents dev
      = put (contents before.dev) off.toNat (calls c).src 0 (calls c).n.toNat)
    : Laid calls first ({ before with dev := dev }.goTo c (.transferred off ret)) := by
  obtain ⟨isOff, others⟩ := laid.here c off (by rw [isFetched]; rfl)
  refine laid.goTo (by rw [isFetched]; rfl) (Nat.le_refl _)
    (fun used uses => (Option.some.inj uses).symm.trans isOff) others
    (fun start result wrote => ?_) (fun d start result isOther wrote => ?_)
    (fun used ret returned => by cases returned) fun other _ => Finset.disjoint_empty_left _
  · cases wrote
    exact onDisk
  · have old := laid.stored d start result wrote
    refine ⟨onDisk.loaded, old.start, old.fits, fun i small => kept _ (old.present i small),
      fun i small => ?_⟩
    -- a call that has written and no longer uses the offset has returned
    have under : start.toNat + (calls d).n.toNat ≤ off.toNat := by
      have unused := others d isOther
      rw [isOff]
      refine laid.below d start result ?_
      generalize before.point d = point at wrote unused
      cases point with
      | start | fetched _ => cases wrote
      | transferred _ _ => cases unused
      | returned _ _ =>
        cases wrote
        rfl
    rw [bytes, put, if_neg (by omega)]
    exact old.bytes i small

theorem toNat_advance {off n : BitVec 32} (nonneg : 0 ≤ n.toInt)
    (fits : off.toNat + n.toNat ≤ RD_SIZE)
    : (if 0 < n.toInt then off + n else off).toNat = off.toNat + n.toNat := by
  have isInt := toNat_of_nonneg nonneg
  have size : RD_SIZE = 268435456 := rfl
  split_ifs with positive
  · rw [BitVec.toNat_add, Nat.mod_eq_of_lt (by omega)]
  · omega

theorem Laid.advance (laid : Laid calls first before) (nonneg : ∀ c, 0 ≤ (calls c).n.toInt)
    {c : ι} {off : BitVec 32} (isTransferred : before.point c = .transferred off (calls c).n)
    : Laid calls first
        ({ before with
            off := if 0 < (calls c).n.toInt then before.off + (calls c).n else before.off }.goTo c
          (.returned off (calls c).n)) := by
  obtain ⟨isOff, others⟩ := laid.here c off (by rw [isTransferred]; rfl)
  have onDisk := laid.stored c off (calls c).n (by rw [isTransferred]; rfl)
  have moves : (if 0 < (calls c).n.toInt then before.off + (calls c).n else before.off).toNat
      = before.off.toNat + (calls c).n.toNat :=
    toNat_advance (nonneg c) (by rw [← isOff]; exact onDisk.fits)
  refine laid.goTo ?_ (by omega) (fun used uses => by cases uses) others
    (fun start result wrote => ?_) (fun d start result _ => laid.stored d start result)
    (fun used ret returned => ?_) fun other differ => ?_
  · rw [isTransferred]
    exact moves
  · cases wrote
    exact onDisk
  · cases returned
    rw [isOff, moves]
  · -- the ranges so far end at the offset where this one starts
    generalize isPoint : before.point other = point
    cases point with
    | returned start result =>
      have under := laid.below other start result isPoint
      rw [← isOff] at under
      refine Finset.disjoint_left.mpr fun i mine theirs => ?_
      simp only [rangeOf, Finset.mem_Ico] at mine theirs
      omega
    | start | fetched _ | transferred _ _ => exact Finset.disjoint_empty_right _

-- Runs

/-- The ramdisk is in order, and so are the ranges unless a call did not get its count. -/
def Sharing (layout : Layout) (frames : List Nat) (calls : ι → Call) (first : Nat) (s : State ι)
    : Prop :=
  Ready layout frames s.dev ∧ (Short calls s ∨ Laid calls first s)

theorem Sharing.step (nonneg : ∀ c, 0 ≤ (calls c).n.toInt)
    (sharing : Sharing layout frames calls first before) (alone : Alone before action)
    (taken : Step layout calls before action after)
    : Sharing layout frames calls first after := by
  obtain ⟨ready, short | laid⟩ := sharing
  · obtain ⟨c, off, ret, wrote, differ⟩ := short
    refine ⟨?_, .inl ⟨c, off, ret, taken.wrote wrote, differ⟩⟩
    rcases taken.cases with ⟨d, _, _, rfl | rfl⟩ | ⟨d, off, ret, bytes, dev, _, _, run, rfl⟩
      | ⟨d, off, ret, _, _, rfl⟩
    · exact ready
    · exact ready
    · exact (transfer_spec ready (nonneg d) run).1
    · exact ready
  · rcases taken.cases with ⟨c, rfl, isStart, rfl | rfl⟩
      | ⟨c, off, ret, bytes, dev, rfl, isFetched, run, rfl⟩ | ⟨c, off, ret, rfl, isTransferred, rfl⟩
    · exact ⟨ready, .inr (laid.fetch isStart alone)⟩
    · refine ⟨ready, .inl ⟨c, before.off, -1, by rw [goTo_self]; rfl, fun isCount => ?_⟩⟩
      have count := nonneg c
      rw [← isCount] at count
      exact absurd count (by decide)
    · obtain ⟨ready', whole⟩ := transfer_spec ready (nonneg c) run
      refine ⟨ready', ?_⟩
      by_cases isCount : ret = (calls c).n
      · obtain ⟨kept, onDisk, bytes⟩ := whole isCount
        exact .inr (laid.transfer isFetched kept onDisk bytes)
      · exact .inl ⟨c, off, ret, by rw [goTo_self]; rfl, isCount⟩
    · refine ⟨ready, ?_⟩
      by_cases isCount : ret = (calls c).n
      · subst isCount
        exact .inr (laid.advance nonneg isTransferred)
      · exact .inl ⟨c, off, ret, by rw [goTo_self]; rfl, isCount⟩

omit [DecidableEq ι] in
theorem Sharing.start {start : State ι} (ready : Ready layout frames start.dev)
    (idle : ∀ c, start.point c = .start)
    : Sharing layout frames calls start.off.toNat start := by
  refine ⟨ready, .inr ⟨?_, ?_, ?_, ?_, ?_⟩⟩
  · simp only [idle, Point.moved, Finset.sum_const_zero, Nat.add_zero]
  · intro c off uses
    rw [idle c] at uses
    cases uses
  · intro c off ret wrote
    rw [idle c] at wrote
    cases wrote
  · intro c off ret returned
    rw [idle c] at returned
    cases returned
  · intro c other _
    rw [idle c]
    exact Finset.disjoint_empty_left _

/-- Calls that fetch the offset one at a time lose nothing: when all have returned their `n`, their
ranges are apart, each can be read back, and the offset has moved by the sum of the `n`.
-/
theorem lone_writers_lose_nothing {start final : State ι} {history : List (Action ι × State ι)}
    (nonneg : ∀ c, 0 ≤ (calls c).n.toInt) (ready : Ready layout frames start.dev)
    (idle : ∀ c, start.point c = .start)
    (run : Run (Step layout calls) start history final) (alone : EachStep Alone history)
    (whole : ∀ c, ∃ off, final.point c = .returned off (calls c).n)
    : (∀ c other, c ≠ other
        → Disjoint (rangeOf (calls c) (final.point c)) (rangeOf (calls other) (final.point other)))
      ∧ (∀ c off ret, final.point c = .returned off ret
        → (Ramdisk.Action.read off (calls c).n).run layout final.dev.fresh
          = .ok (((calls c).n, (List.range (calls c).n.toNat).map (calls c).src),
              final.dev.fresh))
      ∧ final.off.toNat = start.off.toNat + ∑ c, (calls c).n.toNat := by
  have sharing : Sharing layout frames calls start.off.toNat final :=
    run.invariant (.start ready idle)
      (fun _ _ _ sharing alone taken => sharing.step nonneg alone taken) alone
  obtain ⟨_, short | laid⟩ := sharing
  · obtain ⟨c, off, ret, wrote, differ⟩ := short
    obtain ⟨off', returned⟩ := whole c
    rw [returned] at wrote
    cases wrote
    exact absurd rfl differ
  · refine ⟨laid.apart, fun c off ret returned => ?_, ?_⟩
    · exact (laid.stored c off ret (by rw [returned]; rfl)).read (nonneg c)
    · rw [laid.off]
      congr 1
      refine Finset.sum_congr rfl fun c _ => ?_
      obtain ⟨off, returned⟩ := whole c
      rw [returned, Point.moved]

/-- Two bytes and three bytes. -/
def twoCalls (second : Bool) : Call := if second then ⟨fun _ => 9, 3⟩ else ⟨fun _ => 7, 2⟩

/-- An open file on the ramdisk of a machine with one free page. -/
def openRamdisk : State Bool where
  writable := true
  off := 0
  dev := { oneFree with loaded := true }
  point := fun _ => .start

theorem openRamdisk_ready : Ready tinyKernel [KERNBASE + 4096] openRamdisk.dev := by
  have owns := oneFree_booted.ready.owns
  exact ⟨⟨owns.distinct, owns.ram, owns.conserved, owns.bounded, owns.counted⟩,
    Bool.noConfusion⟩

instance (s : State Bool) (action : Action Bool) : Decidable (Alone s action) :=
  match action with
  | .fetch c => inferInstanceAs (Decidable (∀ other, other ≠ c → (s.point other).uses = none))
  | .transfer _ | .advance _ => inferInstanceAs (Decidable True)

/-- Witness: the second call fetches the offset after the first has moved it. -/
theorem calls_in_turn_lose_nothing
    : ∃ history final, Run (Step tinyKernel twoCalls) openRamdisk history final
        ∧ EachStep Alone history ∧ final.point false = .returned 0 2
        ∧ final.point true = .returned 2 3 ∧ final.off.toNat = 0 + 5 := by
  obtain ⟨history, final, run, _, alone, first, second⟩ := run_of_follows
    (labelled_sound fun s : State Bool => s.step tinyKernel twoCalls) openRamdisk
    [.fetch false, .transfer false, .advance false, .fetch true, .transfer true, .advance true]
    (fun history final => EachStep Alone history ∧ final.point false = .returned 0 2
      ∧ final.point true = .returned 2 3)
    (by decide +kernel)
  refine ⟨history, final, run, alone, first, second, ?_⟩
  exact (lone_writers_lose_nothing (by decide) openRamdisk_ready (fun _ => rfl) run alone
    fun c => by
      cases c with
      | false => exact ⟨0, first⟩
      | true => exact ⟨2, second⟩).2.2

/-- Two calls that both fetch the offset before either moves it: both return their count, but the
second one overwrites the bytes of the first.
-/
theorem calls_at_one_offset_lose_bytes
    : Ready tinyKernel [KERNBASE + 4096] openRamdisk.dev
      ∧ ∃ history final, Run (Step tinyKernel twoCalls) openRamdisk history final
        ∧ final.point false = .returned 0 (twoCalls false).n
        ∧ final.point true = .returned 0 (twoCalls true).n
        ∧ ¬Disjoint (rangeOf (twoCalls false) (final.point false))
            (rangeOf (twoCalls true) (final.point true))
        ∧ contents final.dev 0 ≠ (twoCalls false).src 0 := by
  obtain ⟨history, final, run, _, first, second, byte⟩ := run_of_follows
    (labelled_sound fun s : State Bool => s.step tinyKernel twoCalls) openRamdisk
    [.fetch false, .fetch true, .transfer false, .advance false, .transfer true, .advance true]
    (fun _ final => final.point false = .returned 0 2 ∧ final.point true = .returned 0 3
      ∧ contents final.dev 0 = 9)
    (by decide +kernel)
  refine ⟨openRamdisk_ready, history, final, run, first, second, ?_, ?_⟩
  · rw [first, second]
    decide
  · rw [byte]
    decide

end Xv6.Ramdisk.SharedOffset
