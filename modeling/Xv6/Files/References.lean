import Xv6.Files.Table

/-! The references of the file table are exact: what the tables look like between system calls, and
the changes of the tables that keep them so.
-/

namespace Xv6.Files

open Function Library
open Pipes (Pipe Byte)

variable {transfer : Transfer} {pipe : Pipe}

-- Exact tables

/-- The descriptors that point to the file. -/
def Tables.references (t : Tables) (f : Slot) : Nat :=
  countEntries Finset.univ (fun entry => decide (entry = some f)) t.ofile

/-- The file is the write end of the pipe, or its read end. -/
def Tables.IsEnd (t : Tables) (f : Slot) (pi : Nat) (writes : Bool) : Prop :=
  (t.files f).type = .pipe ∧ (t.files f).pipe = pi ∧ (t.files f).writable = writes

/-- `pi->writeopen` or `pi->readopen` of a pipe. -/
def endOpen (pipe : Pipe) (writes : Bool) : Bool := if writes then pipe.writeopen else pipe.readopen

/-- The file that a transfer works on. -/
def Tables.Serves (t : Tables) (f : Slot) : Transfer → Prop
  | .pipewrite pi _ _ _ | .piperead pi _ _ | .pipecopy pi _ _ _ =>
    (t.files f).type = .pipe ∧ (t.files f).pipe = pi
  | .device g _ _ _ _ _ _ => g = f ∧ (t.files f).type = .device
  | .inodeWrite g _ _ _ => g = f ∧ (t.files f).type = .inode

/-- Every reference is a descriptor. A pipe is allocated while one of its ends is open, and an end
is open while its file is.
-/
structure Exact (t : Tables) : Prop where
  counted : ∀ f, (t.files f).ref = t.references f
  typed : ∀ f, (t.files f).ref = 0 ↔ (t.files f).type = .none
  bare : ∀ p, t.life p = .unused ∨ t.life p = .zombie → ∀ fd, t.ofile p fd = none
  allocated : ∀ pi, (t.pipes pi).isSome = true ↔ ∃ f writes, t.IsEnd f pi writes
  ends : ∀ pi pipe writes, t.pipes pi = some pipe
    → (endOpen pipe writes = true ↔ ∃ f, t.IsEnd f pi writes)
  single : ∀ f g pi writes, t.IsEnd f pi writes → t.IsEnd g pi writes → f = g
  busy : ∀ p transfer, t.transfer p = some transfer
    → ∃ fd f, t.ofile p fd = some f ∧ t.Serves f transfer

variable {t t' : Tables} {p np : Proc} {fd : Fd} {f g : Slot} {pi : Nat} {writes : Bool}

/-- An open descriptor has a file in use. -/
theorem Exact.referenced (exact : Exact t) (here : t.ofile p fd = some f)
    : 0 < (t.files f).ref := by
  rw [exact.counted]
  exact countEntries_pos.mpr ⟨p, fd, Finset.mem_univ fd, by simp [here]⟩

/-- A file in use has a type. -/
theorem Exact.open_of_ref (exact : Exact t) (used : 0 < (t.files f).ref)
    : (t.files f).type ≠ .none :=
  fun closed => Nat.ne_of_gt used ((exact.typed f).mpr closed)

/-- An end of a pipe is in use. -/
theorem Exact.ref_of_end (exact : Exact t) (isEnd : t.IsEnd f pi writes)
    : 0 < (t.files f).ref := by
  refine Nat.pos_of_ne_zero fun unused => ?_
  have closed := (exact.typed f).mp unused
  rw [isEnd.1] at closed
  cases closed

@[simp] theorem references_setFile (t : Tables) (f g : Slot) (file : File)
    : (t.setFile f file).references g = t.references g :=
  rfl

/-- Writing a descriptor moves one reference. -/
theorem references_setOfile (t : Tables) (p : Proc) (fd : Fd) (entry : Option Slot) (g : Slot)
    : (t.setOfile p fd entry).references g + (decide (t.ofile p fd = some g)).toNat
      = t.references g + (decide (entry = some g)).toNat :=
  countEntries_setAt (fun entry => decide (entry = some g)) t.ofile p (Finset.mem_univ fd) entry

/-- A new descriptor is a new reference. -/
theorem references_attach (free : t.ofile p fd = none) (g : Slot)
    : (t.setOfile p fd (some f)).references g = t.references g + (decide (f = g)).toNat := by
  have moved := references_setOfile t p fd (some f) g
  simpa [free] using moved

/-- A cleared descriptor is a reference less. -/
theorem references_detach (here : t.ofile p fd = some f) (g : Slot)
    : (t.setOfile p fd none).references g + (decide (f = g)).toNat = t.references g := by
  have moved := references_setOfile t p fd none g
  simpa [here] using moved

@[simp] theorem setFile_self (t : Tables) (f : Slot) (file : File)
    : (t.setFile f file).files f = file :=
  update_self ..

theorem setFile_other (t : Tables) (file : File) (differ : g ≠ f)
    : (t.setFile f file).files g = t.files g :=
  update_of_ne differ ..

@[simp] theorem setOfile_self (t : Tables) (p : Proc) (fd : Fd) (entry : Option Slot)
    : (t.setOfile p fd entry).ofile p fd = entry :=
  setAt_same ..

theorem setOfile_other (t : Tables) {q : Proc} (entry : Option Slot) (differ : q ≠ p) (fd' : Fd)
    : (t.setOfile p fd entry).ofile q fd' = t.ofile q fd' :=
  setAt_other _ _ fun same => differ same.1

-- Changes that leave the ends of the pipes alone

/-- The files have the type and the end of a pipe that they had. -/
def Keeps (t t' : Tables) : Prop :=
  ∀ f, (t'.files f).type = (t.files f).type ∧ (t'.files f).pipe = (t.files f).pipe
    ∧ (t'.files f).writable = (t.files f).writable

theorem Keeps.isEnd (keeps : Keeps t t') : t'.IsEnd f pi writes ↔ t.IsEnd f pi writes := by
  obtain ⟨type, pipe, writable⟩ := keeps f
  unfold Tables.IsEnd
  rw [type, pipe, writable]

/-- A transfer is served by the same files. -/
theorem Keeps.serves (keeps : Keeps t t')
    : t'.Serves f transfer ↔ t.Serves f transfer := by
  cases transfer with
  | pipewrite | piperead | pipecopy => simp only [Tables.Serves, (keeps f).1, (keeps f).2.1]
  | device | inodeWrite => simp only [Tables.Serves, (keeps f).1]

theorem Tables.Serves.congr (serves : t.Serves f transfer) (same : t'.files f = t.files f)
    : t'.Serves f transfer := by
  cases transfer with
  | pipewrite | piperead | pipecopy | device | inodeWrite =>
    simp only [Tables.Serves, same]
    exact serves

variable {file : File}

/-- A file keeps what it is as long as type, pipe and direction stay. -/
theorem keeps_setFile (type : file.type = (t.files f).type) (pipe : file.pipe = (t.files f).pipe)
    (writable : file.writable = (t.files f).writable)
    : Keeps t (t.setFile f file) := by
  intro g
  by_cases same : g = f
  · subst same
    rw [setFile_self]
    exact ⟨type, pipe, writable⟩
  · rw [setFile_other t file same]
    exact ⟨rfl, rfl, rfl⟩

/-- Exact tables stay exact if references and descriptors move together. -/
theorem Exact.of_keeps (exact : Exact t) (keeps : Keeps t t')
    (counted : ∀ f, (t'.files f).ref = t'.references f)
    (used : ∀ f, (t'.files f).ref = 0 ↔ (t.files f).ref = 0)
    (bare : ∀ p, t'.life p = .unused ∨ t'.life p = .zombie → ∀ fd, t'.ofile p fd = none)
    (pipes : t'.pipes = t.pipes)
    (busy : ∀ p transfer, t'.transfer p = some transfer
      → ∃ fd f, t'.ofile p fd = some f ∧ t.Serves f transfer)
    : Exact t' where
  counted := counted
  typed := fun f => by rw [used f, (keeps f).1, exact.typed f]
  bare := bare
  allocated := fun pi => by simp only [pipes, exact.allocated pi, keeps.isEnd]
  ends := fun pi pipe writes here => by
    rw [pipes] at here
    simp only [exact.ends pi pipe writes here, keeps.isEnd]
  single := fun f g pi writes one other =>
    exact.single f g pi writes (keeps.isEnd.mp one) (keeps.isEnd.mp other)
  busy := fun p transfer inside => by
    obtain ⟨fd, f, here, serves⟩ := busy p transfer inside
    exact ⟨fd, f, here, keeps.serves.mpr serves⟩

/-- One more descriptor for a file in use. -/
def Tables.attach (t : Tables) (p : Proc) (fd : Fd) (f : Slot) : Tables :=
  (t.setOfile p fd (some f)).setFile f { t.files f with ref := (t.files f).ref + 1 }

/-- A further descriptor for a file in use. -/
theorem Exact.attach (exact : Exact t) (free : t.ofile p fd = none) (used : 0 < (t.files f).ref)
    (alive : ¬(t.life p = .unused ∨ t.life p = .zombie))
    : Exact (t.attach p fd f) := by
  have keeps : Keeps t (t.attach p fd f) := keeps_setFile rfl rfl rfl
  refine exact.of_keeps keeps (fun g => ?_) (fun g => ?_) (fun q dead fd' => ?_) rfl
    (fun q transfer inside => ?_)
  · by_cases same : g = f
    · subst same
      rw [Tables.attach, references_setFile, references_attach free]
      simp [exact.counted g]
    · rw [Tables.attach, setFile_other _ _ same, references_setFile, references_attach free]
      simp [Ne.symm same, ← exact.counted g, Tables.setOfile]
  · by_cases same : g = f
    · subst same
      rw [Tables.attach, setFile_self]
      simp only
      omega
    · rw [Tables.attach, setFile_other _ _ same]
      rfl
  · have other : q ≠ p := by
      rintro rfl
      exact alive dead
    exact (setOfile_other t (some f) other fd').trans (exact.bare q dead fd')
  · obtain ⟨fd', g, here, serves⟩ := exact.busy q transfer inside
    refine ⟨fd', g, ?_, serves⟩
    have elsewhere : ¬(q = p ∧ fd' = fd) := by
      rintro ⟨rfl, rfl⟩
      rw [free] at here
      cases here
    exact (setAt_other t.ofile (some f) elsewhere).trans here

-- Closing a file

/-- A pipe with one end closed, unless that was the last one. -/
def closeEnd (pipe : Pipe) (writes : Bool) : Option Pipe :=
  let pipe := if writes then { pipe with writeopen := false } else { pipe with readopen := false }
  if pipe.readopen = false ∧ pipe.writeopen = false then none else some pipe

def Tables.closePipe (t : Tables) (pi : Nat) (writes : Bool) : Tables :=
  match t.pipes pi with
  | none => t
  | some pipe => t.setPipe pi (closeEnd pipe writes)

/-- What `fileclose` does to the tables. -/
def Tables.release (t : Tables) (f : Slot) : Tables :=
  if 0 < (t.files f).ref - 1 then
    t.setFile f { t.files f with ref := (t.files f).ref - 1 }
  else
    match (t.files f).type with
    | .pipe =>
      (t.setFile f { t.files f with ref := 0, type := .none }).closePipe (t.files f).pipe
        (t.files f).writable
    | .inode | .device | .none => t.setFile f { t.files f with ref := 0, type := .none }

/-- `pipeclose` frees the pipe when the other end is closed. -/
theorem closeEnd_spec (pipe : Pipe) (writes : Bool)
    : ((closeEnd pipe writes).isSome = true ↔ endOpen pipe (!writes) = true)
      ∧ ∀ pipe', closeEnd pipe writes = some pipe'
        → ∀ side, endOpen pipe' side = true ↔ endOpen pipe side = true ∧ side ≠ writes := by
  cases writes with
  | false | true =>
    refine ⟨?_, fun pipe' closed side => ?_⟩
    · simp [closeEnd, endOpen]
    · obtain ⟨_, rfl⟩ : _ ∧ _ = pipe' := by simpa [closeEnd] using closed
      cases side <;> simp [endOpen]

/-- Closing a file leaves the processes alone. -/
theorem release_setOfile (t : Tables) (f : Slot) (p : Proc) (fd : Fd) (entry : Option Slot)
    : (t.release f).setOfile p fd entry = (t.setOfile p fd entry).release f
      ∧ (t.release f).life = t.life ∧ (t.release f).transfer = t.transfer
      ∧ (t.release f).ofile = t.ofile := by
  have sameFile : (t.setOfile p fd entry).files f = t.files f := rfl
  unfold Tables.release
  rw [sameFile]
  split_ifs
  · exact ⟨rfl, rfl, rfl, rfl⟩
  · cases (t.files f).type with
    | inode | device | none => exact ⟨rfl, rfl, rfl, rfl⟩
    | pipe =>
      dsimp only [Tables.closePipe, Tables.setFile, Tables.setOfile]
      cases t.pipes (t.files f).pipe with
      | none | some => exact ⟨rfl, rfl, rfl, rfl⟩

/-- `fileclose` of a file with other references only counts. -/
theorem release_shared (shared : 1 < (t.files f).ref)
    : t.release f = t.setFile f { t.files f with ref := (t.files f).ref - 1 } := by
  rw [Tables.release, if_pos (by omega)]

/-- `fileclose` of the last reference frees the slot. -/
theorem release_plain (last : (t.files f).ref = 1) (type : (t.files f).type ≠ .pipe)
    : t.release f = t.setFile f { t.files f with ref := 0, type := .none } := by
  rw [Tables.release, if_neg (by omega)]
  cases isType : (t.files f).type with
  | pipe => exact absurd isType type
  | inode | device | none => rfl

/-- `fileclose` of the last reference to an end closes the end. -/
theorem release_end (last : (t.files f).ref = 1) (isEnd : t.IsEnd f pi writes)
    (here : t.pipes pi = some pipe)
    : t.release f
      = (t.setFile f { t.files f with ref := 0, type := .none }).setPipe pi
          (closeEnd pipe writes) := by
  obtain ⟨type, rfl, rfl⟩ := isEnd
  have stays : (t.setFile f { t.files f with ref := 0, type := .none }).pipes (t.files f).pipe
      = some pipe := here
  rw [Tables.release, if_neg (by omega), type]
  dsimp only [Tables.closePipe]
  rw [stays]

section

variable (exact : Exact t)
include exact

section

variable (here : t.ofile p fd = some f) (idle : t.transfer p = none)
include here idle

/-- A process in a transfer keeps its file when another process closes a descriptor. -/
theorem Exact.still_busy {q : Proc} (inside : t.transfer q = some transfer)
    : ∃ fd' g, (t.setOfile p fd none).ofile q fd' = some g ∧ t.Serves g transfer
        ∧ (g = f → 1 < (t.files f).ref) := by
  obtain ⟨fd', g, there, serves⟩ := exact.busy q transfer inside
  have other : q ≠ p := by
    rintro rfl
    rw [idle] at inside
    cases inside
  have kept : (t.setOfile p fd none).ofile q fd' = some g :=
    (setOfile_other t none other fd').trans there
  refine ⟨fd', g, kept, serves, ?_⟩
  rintro rfl
  have more : 0 < (t.setOfile p fd none).references g :=
    countEntries_pos.mpr ⟨q, fd', Finset.mem_univ fd', decide_eq_true kept⟩
  have moved := references_detach here g
  rw [decide_eq_true rfl, Bool.toNat_true] at moved
  rw [exact.counted]
  omega

/-- One descriptor less for a file that has others. -/
theorem Exact.detach_shared (shared : 1 < (t.files f).ref)
    : Exact ((t.setOfile p fd none).setFile f
        { t.files f with ref := (t.files f).ref - 1 }) := by
  have keeps : Keeps t ((t.setOfile p fd none).setFile f
      { t.files f with ref := (t.files f).ref - 1 }) := keeps_setFile rfl rfl rfl
  refine exact.of_keeps keeps (fun g => ?_) (fun g => ?_) (fun q dead fd' => ?_) rfl
    (fun q transfer inside => ?_)
  · have moved := references_detach here g
    rw [← exact.counted g] at moved
    rw [references_setFile]
    by_cases same : g = f
    · subst same
      rw [setFile_self]
      simp only [decide_true, Bool.toNat_true] at moved ⊢
      omega
    · rw [setFile_other _ _ same]
      rw [decide_eq_false (Ne.symm same), Bool.toNat_false, Nat.add_zero] at moved
      rw [moved]
      rfl
  · by_cases same : g = f
    · subst same
      rw [setFile_self]
      simp only
      omega
    · rw [setFile_other _ _ same]
      rfl
  · change setAt t.ofile p fd none q fd' = none
    rw [setAt_eq]
    split_ifs
    · rfl
    · exact exact.bare q dead fd'
  · obtain ⟨fd', g, kept, serves, _⟩ := exact.still_busy here idle inside
    exact ⟨fd', g, kept, serves⟩

/-- The last descriptor of a file, with the pipes that are left. -/
theorem Exact.detach_last (last : (t.files f).ref = 1) {pipes : Nat → Option Pipe}
    (allocated : ∀ pi, (pipes pi).isSome = true ↔ ∃ g writes, t.IsEnd g pi writes ∧ g ≠ f)
    (ends : ∀ pi pipe writes, pipes pi = some pipe
      → (endOpen pipe writes = true ↔ ∃ g, t.IsEnd g pi writes ∧ g ≠ f))
    : Exact { (t.setOfile p fd none).setFile f { t.files f with ref := 0, type := .none } with
        pipes := pipes } := by
  set t' : Tables := { (t.setOfile p fd none).setFile f
    { t.files f with ref := 0, type := .none } with pipes := pipes } with isAfter
  have self : t'.files f = { t.files f with ref := 0, type := .none } := update_self ..
  have others {g : Slot} (differ : g ≠ f) : t'.files g = t.files g :=
    update_of_ne differ ..
  have isEnd (g : Slot) (pi : Nat) (writes : Bool)
      : t'.IsEnd g pi writes ↔ t.IsEnd g pi writes ∧ g ≠ f := by
    by_cases same : g = f
    · subst same
      simp [Tables.IsEnd, self]
    · simp [Tables.IsEnd, others same, same]
  refine ⟨fun g => ?_, fun g => ?_, fun q dead fd' => ?_, fun pi => ?_,
    fun pi pipe writes at_ => ?_,
    fun g g' pi writes one other => ?_, fun q transfer inside => ?_⟩
  · have moved := references_detach here g
    rw [← exact.counted g] at moved
    change _ = (t.setOfile p fd none).references g
    by_cases same : g = f
    · subst same
      rw [self]
      simp only [decide_true, Bool.toNat_true] at moved ⊢
      omega
    · rw [others same]
      rw [decide_eq_false (Ne.symm same), Bool.toNat_false, Nat.add_zero] at moved
      rw [moved]
  · by_cases same : g = f
    · subst same
      simp [self]
    · rw [others same]
      exact exact.typed g
  · change setAt t.ofile p fd none q fd' = none
    rw [setAt_eq]
    split_ifs
    · rfl
    · exact exact.bare q dead fd'
  · simp only [isEnd]
    exact allocated pi
  · simp only [isEnd]
    exact ends pi pipe writes at_
  · exact exact.single g g' pi writes ((isEnd ..).mp one).1 ((isEnd ..).mp other).1
  · obtain ⟨fd', g, kept, serves, enough⟩ := exact.still_busy here idle inside
    have differ : g ≠ f := by
      intro same
      have := enough same
      omega
    exact ⟨fd', g, kept, serves.congr (others differ)⟩

/-- The last descriptor of a file that is not a pipe. -/
theorem Exact.detach_plain (last : (t.files f).ref = 1) (type : (t.files f).type ≠ .pipe)
    : Exact ((t.setOfile p fd none).setFile f
        { t.files f with ref := 0, type := .none }) := by
  have differ {g : Slot} {pi : Nat} {writes : Bool} (isEnd : t.IsEnd g pi writes) : g ≠ f := by
    rintro rfl
    exact type isEnd.1
  refine exact.detach_last here idle last (fun pi => ?_) (fun pi pipe writes at_ => ?_)
  · change (t.pipes pi).isSome = true ↔ _
    rw [exact.allocated pi]
    exact exists_congr fun g => exists_congr fun writes =>
      ⟨fun isEnd => ⟨isEnd, differ isEnd⟩, And.left⟩
  · rw [exact.ends pi pipe writes at_]
    exact exists_congr fun g => ⟨fun isEnd => ⟨isEnd, differ isEnd⟩, And.left⟩

end

/-- Two files are the same end only if they are the same file. -/
theorem Exact.other_end (isEnd : t.IsEnd f pi writes) {pi' : Nat} {writes' : Bool}
    (there : t.IsEnd g pi' writes')
    : g ≠ f ↔ ¬(pi' = pi ∧ writes' = writes) := by
  constructor
  · rintro differ ⟨rfl, rfl⟩
    exact differ (exact.single g f _ _ there isEnd)
  · rintro away rfl
    exact away ⟨there.2.1.symm.trans isEnd.2.1, there.2.2.symm.trans isEnd.2.2⟩

end

theorem eq_not_of_ne {a b : Bool} (differ : a ≠ b) : a = !b := by
  revert differ
  cases a <;> cases b <;> simp

/-- The last descriptor of an end of a pipe. -/
theorem Exact.detach_end (exact : Exact t) (here : t.ofile p fd = some f)
    (idle : t.transfer p = none) (last : (t.files f).ref = 1) (isEnd : t.IsEnd f pi writes)
    (held : t.pipes pi = some pipe)
    : Exact (((t.setOfile p fd none).setFile f
        { t.files f with ref := 0, type := .none }).setPipe pi (closeEnd pipe writes)) := by
  obtain ⟨stays, kept⟩ := closeEnd_spec pipe writes
  refine exact.detach_last here idle last (fun pi' => ?_) (fun pi' pipe' writes' at_ => ?_)
  · change (update t.pipes pi (closeEnd pipe writes) pi').isSome = true ↔ _
    by_cases same : pi' = pi
    · subst same
      rw [update_self, stays, exact.ends _ pipe _ held]
      constructor
      · rintro ⟨g, there⟩
        exact ⟨g, _, there, (exact.other_end isEnd there).mpr fun both => by simp at both⟩
      · rintro ⟨g, writes', there, differ⟩
        have opposite : writes' = !writes := eq_not_of_ne fun side =>
          (exact.other_end isEnd there).mp differ ⟨rfl, side⟩
        exact ⟨g, opposite ▸ there⟩
    · rw [update_of_ne same, exact.allocated pi']
      exact exists_congr fun g => exists_congr fun writes' =>
        ⟨fun there => ⟨there, (exact.other_end isEnd there).mpr fun both => same both.1⟩, And.left⟩
  · by_cases same : pi' = pi
    · subst same
      rw [update_self] at at_
      rw [kept pipe' at_ writes', exact.ends _ pipe _ held]
      constructor
      · rintro ⟨⟨g, there⟩, differ⟩
        exact ⟨g, there, (exact.other_end isEnd there).mpr fun both => differ both.2⟩
      · rintro ⟨g, there, away⟩
        exact ⟨⟨g, there⟩, fun side => (exact.other_end isEnd there).mp away ⟨rfl, side⟩⟩
    · rw [update_of_ne same] at at_
      rw [exact.ends pi' pipe' writes' at_]
      exact exists_congr fun g =>
        ⟨fun there => ⟨there, (exact.other_end isEnd there).mpr fun both => same both.1⟩, And.left⟩

/-- Closing a descriptor keeps the tables exact. -/
theorem Exact.detach (exact : Exact t) (here : t.ofile p fd = some f)
    (idle : t.transfer p = none)
    : Exact ((t.setOfile p fd none).release f) := by
  have used := exact.referenced here
  by_cases shared : 1 < (t.files f).ref
  · have released : (t.setOfile p fd none).release f = _ := release_shared shared
    rw [released]
    exact exact.detach_shared here idle shared
  · have last : (t.files f).ref = 1 := by omega
    by_cases isPipe : (t.files f).type = .pipe
    · have isEnd : t.IsEnd f (t.files f).pipe (t.files f).writable := ⟨isPipe, rfl, rfl⟩
      obtain ⟨pipe, held⟩ := Option.isSome_iff_exists.mp
        ((exact.allocated (t.files f).pipe).mpr ⟨f, _, isEnd⟩)
      have released : (t.setOfile p fd none).release f = _ := release_end last isEnd held
      rw [released]
      exact exact.detach_end here idle last isEnd held
    · have released : (t.setOfile p fd none).release f = _ := release_plain last isPipe
      rw [released]
      exact exact.detach_plain here idle last isPipe

-- New files

/-- The tables with a descriptor for a file in a slot that was not used. -/
def Tables.place (t : Tables) (p : Proc) (fd : Fd) (f : Slot) (file : File) : Tables :=
  (t.setOfile p fd (some f)).setFile f file

section

variable (exact : Exact t)
include exact

/-- A new file keeps the tables exact, with the pipes that fit to it. -/
theorem Exact.place (free : t.ofile p fd = none) (unused : (t.files f).ref = 0)
    (alive : ¬(t.life p = .unused ∨ t.life p = .zombie)) (ref : file.ref = 1)
    (type : file.type ≠ .none) {pipes : Nat → Option Pipe}
    (allocated : ∀ pi, (pipes pi).isSome = true
      ↔ ∃ g writes, (t.place p fd f file).IsEnd g pi writes)
    (ends : ∀ pi pipe writes, pipes pi = some pipe
      → (endOpen pipe writes = true ↔ ∃ g, (t.place p fd f file).IsEnd g pi writes))
    (single : ∀ g g' pi writes, (t.place p fd f file).IsEnd g pi writes
      → (t.place p fd f file).IsEnd g' pi writes → g = g')
    : Exact { t.place p fd f file with pipes := pipes } := by
  have self : (t.place p fd f file).files f = file := update_self ..
  have others {g : Slot} (differ : g ≠ f) : (t.place p fd f file).files g = t.files g :=
    update_of_ne differ ..
  refine ⟨fun g => ?_, fun g => ?_, fun q dead fd' => ?_, allocated, ends, single,
    fun q transfer inside => ?_⟩
  · have moved := references_attach (f := f) free g
    rw [← exact.counted g] at moved
    change ((t.place p fd f file).files g).ref = (t.setOfile p fd (some f)).references g
    by_cases same : g = f
    · subst same
      rw [self, moved, unused, ref, decide_eq_true rfl]
      rfl
    · rw [others same, moved, decide_eq_false (Ne.symm same)]
      rfl
  · by_cases same : g = f
    · subst same
      rw [self, ref]
      exact iff_of_false (by decide) type
    · rw [others same]
      exact exact.typed g
  · have other : q ≠ p := by
      rintro rfl
      exact alive dead
    exact (setOfile_other t (some f) other fd').trans (exact.bare q dead fd')
  · obtain ⟨fd', g, here, serves⟩ := exact.busy q transfer inside
    have elsewhere : ¬(q = p ∧ fd' = fd) := by
      rintro ⟨rfl, rfl⟩
      rw [free] at here
      cases here
    have differ : g ≠ f := by
      rintro rfl
      exact Nat.ne_of_gt (exact.referenced here) unused
    exact ⟨fd', g, (setAt_other t.ofile (some f) elsewhere).trans here,
      serves.congr (others differ)⟩

/-- A new file is a new end if it is one of a pipe. -/
theorem isEnd_place (unused : (t.files f).ref = 0) (p : Proc) (fd : Fd) (file : File) (g : Slot)
    (pi : Nat) (writes : Bool)
    : (t.place p fd f file).IsEnd g pi writes
      ↔ t.IsEnd g pi writes
        ∨ (g = f ∧ file.type = .pipe ∧ file.pipe = pi ∧ file.writable = writes) := by
  by_cases same : g = f
  · subst same
    have closed := (exact.typed g).mp unused
    simp [Tables.IsEnd, Tables.place, closed]
  · have kept : (t.place p fd f file).files g = t.files g := update_of_ne same ..
    simp [Tables.IsEnd, kept, same]

section

variable (free : t.ofile p fd = none) (unused : (t.files f).ref = 0)
  (alive : ¬(t.life p = .unused ∨ t.life p = .zombie)) (ref : file.ref = 1)
include free unused alive ref

/-- A new file that is not a pipe. -/
theorem Exact.place_plain (type : file.type = .inode ∨ file.type = .device)
    : Exact (t.place p fd f file) := by
  have notPipe : file.type ≠ .pipe := by
    rcases type with isType | isType <;> rw [isType] <;> decide
  have notNone : file.type ≠ .none := by
    rcases type with isType | isType <;> rw [isType] <;> decide
  have isEnd (g : Slot) (pi : Nat) (writes : Bool)
      : (t.place p fd f file).IsEnd g pi writes ↔ t.IsEnd g pi writes := by
    rw [isEnd_place exact unused]
    exact or_iff_left fun new => notPipe new.2.1
  refine exact.place free unused alive ref notNone (fun pi => ?_) (fun pi pipe writes at_ => ?_)
    (fun g g' pi writes one other => ?_)
  · simp only [isEnd]
    exact exact.allocated pi
  · simp only [isEnd]
    exact exact.ends pi pipe writes at_
  · exact exact.single g g' pi writes ((isEnd ..).mp one) ((isEnd ..).mp other)

/-- A new end of a pipe, of which the other end may be open. -/
theorem Exact.place_end (type : file.type = .pipe)
    (closed : ¬∃ g, t.IsEnd g file.pipe file.writable) (opens : endOpen pipe file.writable = true)
    (other : endOpen pipe (!file.writable) = true ↔ ∃ g, t.IsEnd g file.pipe (!file.writable))
    : Exact ((t.place p fd f file).setPipe file.pipe (some pipe)) := by
  have isEnd := isEnd_place exact unused p fd file
  have new : (t.place p fd f file).IsEnd f file.pipe file.writable :=
    (isEnd ..).mpr (.inr ⟨rfl, type, rfl, rfl⟩)
  have old {g : Slot} {pi : Nat} {writes : Bool}
      (there : (t.place p fd f file).IsEnd g pi writes)
      (away : ¬(pi = file.pipe ∧ writes = file.writable)) : t.IsEnd g pi writes := by
    rcases (isEnd ..).mp there with before | ⟨_, _, rfl, rfl⟩
    · exact before
    · exact absurd ⟨rfl, rfl⟩ away
  have own {g : Slot} (there : (t.place p fd f file).IsEnd g file.pipe file.writable) : g = f := by
    rcases (isEnd ..).mp there with before | ⟨isNew, _⟩
    · exact absurd ⟨g, before⟩ closed
    · exact isNew
  refine exact.place free unused alive ref (by rw [type]; decide) (fun pi => ?_)
    (fun pi pipe' writes at_ => ?_) (fun g g' pi writes one two => ?_)
  · by_cases same : pi = file.pipe
    · subst same
      rw [update_self]
      exact iff_of_true rfl ⟨f, _, new⟩
    · change (update t.pipes _ _ _).isSome = true ↔ _
      rw [update_of_ne same, exact.allocated pi]
      exact exists_congr fun g => exists_congr fun writes =>
        ⟨fun before => (isEnd ..).mpr (.inl before), fun there => old there fun both => same both.1⟩
  · by_cases same : pi = file.pipe
    · subst same
      rw [update_self] at at_
      cases at_
      by_cases side : writes = file.writable
      · subst side
        exact iff_of_true opens ⟨f, new⟩
      · obtain rfl : writes = !file.writable := eq_not_of_ne side
        rw [other]
        exact exists_congr fun g =>
          ⟨fun before => (isEnd ..).mpr (.inl before),
            fun there => old there fun both => side both.2⟩
    · rw [update_of_ne same] at at_
      rw [exact.ends pi pipe' writes at_]
      exact exists_congr fun g =>
        ⟨fun before => (isEnd ..).mpr (.inl before), fun there => old there fun both => same both.1⟩
  · by_cases mine : pi = file.pipe ∧ writes = file.writable
    · obtain ⟨rfl, rfl⟩ := mine
      rw [own one, own two]
    · exact exact.single g g' pi writes (old one mine) (old two mine)

end

-- Processes, transfers and contents

/-- A process may be freed once its descriptors are closed. -/
theorem Exact.setLife {life : Life}
    (bare : life = .unused ∨ life = .zombie → ∀ fd, t.ofile p fd = none)
    : Exact (t.setLife p life) := by
  refine exact.of_keeps (fun _ => ⟨rfl, rfl, rfl⟩) exact.counted (fun _ => Iff.rfl)
    (fun q dead fd' => ?_) rfl exact.busy
  change update t.life p life q = _ ∨ update t.life p life q = _ at dead
  by_cases same : q = p
  · subst same
    rw [update_self] at dead
    exact bare dead fd'
  · rw [update_of_ne same] at dead
    exact exact.bare q dead fd'

/-- A process may begin a transfer on a file that it has open. -/
theorem Exact.setTransfer {transfer : Option Transfer}
    (serves : ∀ inside, transfer = some inside → ∃ fd f, t.ofile p fd = some f ∧ t.Serves f inside)
    : Exact (t.setTransfer p transfer) := by
  refine exact.of_keeps (fun _ => ⟨rfl, rfl, rfl⟩) exact.counted (fun _ => Iff.rfl) exact.bare rfl
    (fun q inside here => ?_)
  change update t.transfer p transfer q = some inside at here
  by_cases same : q = p
  · subst same
    rw [update_self] at here
    exact serves inside here
  · rw [update_of_ne same] at here
    exact exact.busy q inside here

theorem Exact.setOff (off : BitVec 32) : Exact (t.setFile f { t.files f with off := off }) := by
  have ref (g : Slot) : ((t.setFile f { t.files f with off := off }).files g).ref
      = (t.files g).ref := by
    by_cases same : g = f
    · subst same
      rw [setFile_self]
    · rw [setFile_other t _ same]
  refine exact.of_keeps (keeps_setFile rfl rfl rfl) (fun g => ?_) (fun g => by rw [ref g])
    exact.bare rfl exact.busy
  rw [ref g]
  exact exact.counted g

/-- What a pipe holds is free. -/
theorem Exact.setContents {pipe' : Pipe} (here : t.pipes pi = some pipe)
    (same : ∀ writes, endOpen pipe' writes = endOpen pipe writes)
    : Exact (t.setPipe pi (some pipe')) := by
  refine ⟨exact.counted, exact.typed, exact.bare, fun other => ?_, fun other pipe₁ writes at_ => ?_,
    exact.single, exact.busy⟩
  · change (update t.pipes pi (some pipe') other).isSome = true ↔ _
    by_cases isPipe : other = pi
    · subst isPipe
      have allocated := exact.allocated other
      rw [here] at allocated
      rw [update_self]
      exact allocated
    · rw [update_of_ne isPipe]
      exact exact.allocated other
  · change update t.pipes pi (some pipe') other = some pipe₁ at at_
    by_cases isPipe : other = pi
    · subst isPipe
      rw [update_self] at at_
      cases at_
      rw [same writes]
      exact exact.ends other pipe writes here
    · rw [update_of_ne isPipe] at at_
      exact exact.ends other pipe₁ writes at_

end

-- Stale fields

/-- A slot that is free. Its other fields are left from the last file. -/
def File.Stale (file : File) : Prop := file.ref = 0 ∧ file.type = .none

/-- The tables differ in the fields of free slots at most. -/
structure Alike (t t' : Tables) : Prop where
  files : ∀ f, t'.files f = t.files f ∨ (t.files f).Stale ∧ (t'.files f).Stale
  pipes : t'.pipes = t.pipes
  ofile : t'.ofile = t.ofile
  life : t'.life = t.life
  transfer : t'.transfer = t.transfer
  initproc : t'.initproc = t.initproc

theorem Alike.refl (t : Tables) : Alike t t := ⟨fun _ => .inl rfl, rfl, rfl, rfl, rfl, rfl⟩

theorem Alike.ref (alike : Alike t t') (f : Slot) : (t'.files f).ref = (t.files f).ref := by
  rcases alike.files f with same | ⟨one, other⟩
  · rw [same]
  · rw [one.1, other.1]

theorem Alike.type (alike : Alike t t') (f : Slot) : (t'.files f).type = (t.files f).type := by
  rcases alike.files f with same | ⟨one, other⟩
  · rw [same]
  · rw [one.2, other.2]

/-- Alike tables have the same ends. -/
theorem Alike.isEnd (alike : Alike t t') : t'.IsEnd f pi writes ↔ t.IsEnd f pi writes := by
  unfold Tables.IsEnd
  rcases alike.files f with same | ⟨one, other⟩
  · rw [same]
  · rw [one.2, other.2]
    simp

/-- Exactness does not depend on what free slots hold. -/
theorem Exact.alike (exact : Exact t) (alike : Alike t t') : Exact t' where
  counted := fun f => by
    rw [alike.ref f, exact.counted f, Tables.references, Tables.references, alike.ofile]
  typed := fun f => by rw [alike.ref f, alike.type f, exact.typed f]
  bare := by
    rw [alike.life, alike.ofile]
    exact exact.bare
  allocated := fun pi => by simp only [alike.pipes, exact.allocated pi, alike.isEnd]
  ends := fun pi pipe writes here => by
    rw [alike.pipes] at here
    simp only [exact.ends pi pipe writes here, alike.isEnd]
  single := fun f g pi writes one other =>
    exact.single f g pi writes (alike.isEnd.mp one) (alike.isEnd.mp other)
  busy := fun p transfer inside => by
    rw [alike.transfer] at inside
    obtain ⟨fd, f, here, serves⟩ := exact.busy p transfer inside
    have used := exact.referenced here
    refine ⟨fd, f, by rw [alike.ofile]; exact here, ?_⟩
    rcases alike.files f with same | ⟨stale, _⟩
    · exact serves.congr same
    · exact absurd stale.1 (Nat.ne_of_gt used)

/-- The tables of a system that starts are exact. -/
theorem Tables.Booted.exact (booted : t.Booted) : Exact t := by
  have noEnd (f : Slot) (pi : Nat) (writes : Bool) : ¬t.IsEnd f pi writes := by
    intro isEnd
    have closed := (booted.files f).2
    rw [isEnd.1] at closed
    cases closed
  refine ⟨fun f => ?_, fun f => ?_, fun p _ fd => booted.ofile p fd, fun pi => ?_,
    fun pi pipe writes here => ?_, fun f g pi writes one _ => absurd one (noEnd f pi writes),
    fun p transfer inside => ?_⟩
  · rw [(booted.files f).1]
    refine (Nat.eq_zero_of_not_pos fun some => ?_).symm
    obtain ⟨p, fd, _, here⟩ := countEntries_pos.mp some
    rw [booted.ofile] at here
    simp at here
  · exact iff_of_true (booted.files f).1 (booted.files f).2
  · rw [booted.pipes]
    refine iff_of_false (by simp) ?_
    rintro ⟨f, writes, isEnd⟩
    exact noEnd f pi writes isEnd
  · rw [booted.pipes] at here
    cases here
  · rw [booted.transfer] at inside
    cases inside

end Xv6.Files
