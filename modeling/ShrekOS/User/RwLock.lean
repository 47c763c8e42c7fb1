/-
The readers/writers lock of `user/libthread/rwlock.c`, used by any number of threads.

* `RwLock`, `RwPc`, `rwStep`: the lock, where a thread is, and the steps of `rwlock_lock`,
  `rwlock_unlock` and `rwlock_downgrade`;
* `RwInv`, `RwAssert`: the invariant and the assertion of a program counter, over the ghost
  state `RwGhost`; `RwAssert.other`: what a step leaves to the other threads;
* `RwSafe`, `rwSafe_of_reachable`: **readers and writers exclude each other, and nobody is
  left behind in the queue**.

The mutex and the condition variable are ideal: `cond_wait` releases the mutex and enters
the queue at once, `cond_signal` wakes up any one of the waiters.
-/
import ShrekOS.Lib.Threads
import Mathlib.Data.Set.Card

namespace ShrekOS

open Kit

/-- `RWLOCK_READ` and `RWLOCK_WRITE`. -/
inductive RwType where
  | read
  | write
  deriving DecidableEq

/-- `rwlock_t`, with the holder of `m` and the threads queued on `cv`. -/
structure RwLock where
  m : Option ℕ
  cv : Finset ℕ
  count : ℤ
  writerLocked : Bool
  deriving DecidableEq

/-- Where a thread is: outside, in `rwlock_lock`, with the lock, in `rwlock_unlock` or in
`rwlock_downgrade`. A thread at `leave` is at the last `mutex_unlock`, with what it then has
of the lock. -/
inductive RwPc where
  | out
  | lock (type : RwType)
  | check (type : RwType)
  | test (type : RwType)
  | wait (type : RwType)
  | take (type : RwType)
  | leave (held : Option RwType)
  | holding (type : RwType)
  | unlock (type : RwType)
  | unlockCheck (type : RwType)
  | release (type : RwType)
  | counted
  | signal
  | broadcast (held : Option RwType)
  | downgrade
  | downgradeCheck
  | convert
  | recount
  | panicked
  deriving DecidableEq

/-- The calls of a thread, its next step, and the choice of `cond_signal`. -/
inductive RwAct where
  | lock (type : RwType)
  | unlock
  | downgrade
  | run
  | wake (t : ℕ)

namespace RwLock

/-- `mutex_lock(&(rwlock->m))`, when the mutex is free. -/
def mutexLock (s : RwLock) (t : ℕ) : Option RwLock :=
  if s.m = none then some { s with m := some t } else none

/-- `mutex_unlock(&(rwlock->m))`. -/
def mutexUnlock (s : RwLock) : RwLock := { s with m := none }

/-- `cond_wait(&(rwlock->cv), &(rwlock->m))`, up to the wait. -/
def condWait (s : RwLock) (t : ℕ) : RwLock := { s with m := none, cv := insert t s.cv }

/-- The condition of the loop of `rwlock_lock`. -/
def MustWait (s : RwLock) : RwType → Prop
  | .read => s.writerLocked = true
  | .write => s.writerLocked = true ∨ 0 < s.count

instance (s : RwLock) (type : RwType) : Decidable (s.MustWait type) :=
  match type with
  | .read => inferInstanceAs (Decidable (_ = true))
  | .write => inferInstanceAs (Decidable (_ ∨ _))

/-- What `rwlock_lock` writes after its loop. -/
def take (s : RwLock) : RwType → RwLock
  | .read => { s with count := s.count + 1 }
  | .write => { s with writerLocked := true }

end RwLock

/-- The steps of a thread. It unlocks and downgrades what it holds. -/
def rwStep (s : RwLock) (t : ℕ) : RwPc → RwAct → Option (RwLock × RwPc)
  | .out, .lock type => some (s, .lock type)
  | .holding type, .unlock => some (s, .unlock type)
  | .holding .write, .downgrade => some (s, .downgrade)
  -- `rwlock_lock`
  | .lock type, .run => (s.mutexLock t).map fun s => (s, .check type)
  | .check type, .run => if s.count < 0 then some (s, .panicked) else some (s, .test type)
  | .test type, .run =>
      if s.MustWait type then some (s.condWait t, .wait type) else some (s, .take type)
  | .wait type, .run =>
      if t ∈ s.cv then none else (s.mutexLock t).map fun s => (s, .test type)
  | .take type, .run => some (s.take type, .leave (some type))
  -- `rwlock_unlock`
  | .unlock type, .run => (s.mutexLock t).map fun s => (s, .unlockCheck type)
  | .unlockCheck type, .run =>
      if s.count ≤ 0 ∧ s.writerLocked = false then some (s, .panicked)
      else some (s, .release type)
  | .release _, .run =>
      if s.writerLocked then some ({ s with writerLocked := false }, .broadcast none)
      else some ({ s with count := s.count - 1 }, .counted)
  | .counted, .run => if s.count = 0 then some (s, .signal) else some (s, .leave none)
  | .signal, .wake w => if w ∈ s.cv then some ({ s with cv := s.cv.erase w }, .leave none) else none
  | .signal, .run => if s.cv = ∅ then some (s, .leave none) else none
  -- `rwlock_downgrade`
  | .downgrade, .run => (s.mutexLock t).map fun s => (s, .downgradeCheck)
  | .downgradeCheck, .run => if s.writerLocked then some (s, .convert) else some (s, .panicked)
  | .convert, .run => some ({ s with writerLocked := false }, .recount)
  | .recount, .run => some ({ s with count := s.count + 1 }, .broadcast (some .read))
  -- the end of each of them
  | .broadcast held, .run => some ({ s with cv := ∅ }, .leave held)
  | .leave (some type), .run => some (s.mutexUnlock, .holding type)
  | .leave none, .run => some (s.mutexUnlock, .out)
  | _, _ => none

/-- `rwlock_init`. -/
def rwlockInit : RwLock where
  m := none
  cv := ∅
  count := 0
  writerLocked := false

/-- The threads that use a lock. -/
def rwThreads : Threads RwLock RwPc RwAct where
  init s := s = (rwlockInit, fun _ => .out)
  step := rwStep

namespace RwPc

/-- What the thread has of the lock. -/
@[simp] def held : RwPc → Option RwType
  | .leave held | .broadcast held => held
  | .holding type | .unlock type | .unlockCheck type | .release type => some type
  | .downgrade | .downgradeCheck | .convert => some .write
  | _ => none

/-- The thread holds `m`. -/
@[simp] def Inside : RwPc → Prop
  | .check _ | .test _ | .take _ | .leave _ | .unlockCheck _ | .release _ | .counted | .signal
  | .broadcast _ | .downgradeCheck | .convert | .recount => True
  | _ => False

/-- The thread is in `cond_wait`. -/
@[simp] def Waits : RwPc → Prop
  | .wait _ => True
  | _ => False

/-- The thread goes on to test the lock, or to wake up a waiter. -/
@[simp] def Attends : RwPc → Prop
  | .check _ | .test _ | .take _ | .counted | .signal | .broadcast _ | .recount => True
  | _ => False

/-- The thread goes on to wake up all the waiters. -/
@[simp] def Flushes : RwPc → Prop
  | .broadcast _ | .recount => True
  | _ => False

end RwPc

/-- The lock is safe, at a time when nobody holds `m`. -/
structure RwSafe (s : RwLock) (pc : ℕ → RwPc) : Prop where
  exclusive : ¬ (s.writerLocked = true ∧ 0 < s.count)
  writer : ∀ t u, (pc t).held = some .write → (pc u).held = some .write → t = u
  readers : s.count = {t | (pc t).held = some .read}.ncard
  stranded : s.writerLocked = false → s.count = 0 → s.cv.Nonempty →
    ∃ t, (pc t).Waits ∧ t ∉ s.cv

/-! ### The invariant -/

/-- Who has the lock, who was woken up and has not looked, and where the holder of `m` is. -/
structure RwGhost where
  readers : Finset ℕ
  writer : Option ℕ
  woken : Finset ℕ
  site : RwPc

/-- **The invariant of a readers/writers lock.** -/
structure RwInv (s : RwLock) (g : RwGhost) : Prop where
  count : s.count = g.readers.card
  writer : s.writerLocked = true ↔ g.writer ≠ none
  exclusive : s.writerLocked = true → g.readers = ∅
  outside : s.m = none → g.site = .out
  stranded : s.writerLocked = false → g.readers = ∅ → s.cv.Nonempty →
    g.woken.Nonempty ∨ g.site.Attends

/-- The assertion of a thread. -/
structure RwAssert (s : RwLock) (g : RwGhost) (t : ℕ) (p : RwPc) : Prop where
  reads : t ∈ g.readers ↔ p.held = some .read
  writes : g.writer = some t ↔ p.held = some .write
  inside : s.m = some t ↔ p.Inside
  site : p.Inside → g.site = p
  queued : t ∈ s.cv → p.Waits
  woken : t ∈ g.woken ↔ p.Waits ∧ t ∉ s.cv
  /-- a reader is queued while a writer has the lock -/
  reader : t ∈ s.cv → p = .wait .read → s.writerLocked = true ∨ g.site.Flushes
  take : ∀ type, p = .take type → ¬ s.MustWait type
  convert : p = .recount → s.writerLocked = false
  sound : p ≠ .panicked

/-- What a step of a thread leaves to the others, if it holds `m` before or after it. -/
structure RwOthers (s : RwLock) (g : RwGhost) (s' : RwLock) (g' : RwGhost) (t : ℕ) : Prop where
  reads : ∀ u, u ≠ t → (u ∈ g'.readers ↔ u ∈ g.readers)
  writes : ∀ u, u ≠ t → (g'.writer = some u ↔ g.writer = some u)
  m : ∀ u, u ≠ t → s'.m ≠ some u
  cv : ∀ u, u ≠ t → u ∈ s'.cv → u ∈ s.cv
  woken : ∀ u, u ≠ t → (u ∈ g'.woken ↔ u ∈ g.woken ∨ u ∈ s.cv ∧ u ∉ s'.cv)
  reader : s'.cv = ∅ ∨ (s.writerLocked = true ∨ g.site.Flushes →
    s'.writerLocked = true ∨ g'.site.Flushes)

/-- What a step of a thread establishes. -/
def RwKept (t : ℕ) (pc : ℕ → RwPc) (s' : RwLock) (p' : RwPc) : Prop :=
  ∃ g', RwInv s' g' ∧ RwAssert s' g' t p' ∧ ∀ u, u ≠ t → RwAssert s' g' u (pc u)

variable {s s' : RwLock} {g g' : RwGhost} {t u : ℕ} {pc : ℕ → RwPc} {p p' : RwPc}

/-- A thread that does not hold `m` keeps its assertion. -/
lemma RwAssert.other (h : RwAssert s g u p) (hu : u ≠ t) (hin : ¬ p.Inside)
    (ho : RwOthers s g s' g' t) : RwAssert s' g' u p where
  reads := (ho.reads u hu).trans h.reads
  writes := (ho.writes u hu).trans h.writes
  inside := iff_of_false (ho.m u hu) hin
  site hp := absurd hp hin
  queued hq := h.queued (ho.cv u hu hq)
  woken := by
    rw [ho.woken u hu, h.woken]
    constructor
    · rintro (⟨hw, hq⟩ | ⟨hq, hq'⟩)
      · exact ⟨hw, fun hq' => hq (ho.cv u hu hq')⟩
      · exact ⟨h.queued hq, hq'⟩
    · rintro ⟨hw, hq'⟩
      by_cases hq : u ∈ s.cv
      · exact .inr ⟨hq, hq'⟩
      · exact .inl ⟨hw, hq⟩
  reader hq hp := by
    rcases ho.reader with hempty | hkeep
    · rw [hempty] at hq
      exact absurd hq (Finset.notMem_empty u)
    · exact hkeep (h.reader (ho.cv u hu hq) hp)
  take type hp := absurd (by rw [hp]; trivial) hin
  convert hp := absurd (by rw [hp]; trivial) hin
  sound := h.sound

/-- A step of the holder of `m`. -/
lemma RwKept.inside (g' : RwGhost) (hA : ∀ u, RwAssert s g u (pc u)) (hin : (pc t).Inside)
    (hI : RwInv s' g') (hown : RwAssert s' g' t p') (ho : RwOthers s g s' g' t) :
    RwKept t pc s' p' := by
  refine ⟨g', hI, hown, fun u hu => (hA u).other hu (fun hin' => hu ?_) ho⟩
  have hm := (hA t).inside.mpr hin
  rw [(hA u).inside.mpr hin'] at hm
  exact Option.some.inj hm

/-- A step of a thread outside that only moves on. -/
lemma RwKept.move (hI : RwInv s g) (hA : ∀ u, RwAssert s g u (pc u))
    (hheld : p'.held = (pc t).held) (hin : ¬ (pc t).Inside ∧ ¬ p'.Inside)
    (hw : ¬ (pc t).Waits ∧ ¬ p'.Waits) (hsound : p' ≠ .panicked) : RwKept t pc s p' := by
  have h := hA t
  refine ⟨g, hI, ⟨?_, ?_, ?_, ?_, ?_, ?_, ?_, ?_, ?_, hsound⟩, fun u _ => hA u⟩
  · rw [h.reads, hheld]
  · rw [h.writes, hheld]
  · exact h.inside.trans (iff_of_false hin.1 hin.2)
  · exact fun hp => absurd hp hin.2
  · exact fun hq => absurd (h.queued hq) hw.1
  · exact h.woken.trans (iff_of_false (fun hp => hw.1 hp.1) fun hp => hw.2 hp.1)
  · exact fun hq => absurd (h.queued hq) hw.1
  · exact fun type hp => absurd (by rw [hp]; trivial) hin.2
  · exact fun hp => absurd (by rw [hp]; trivial) hin.2

/-- A thread takes `m`. -/
lemma RwKept.lock (hI : RwInv s g) (hA : ∀ u, RwAssert s g u (pc u)) (hs : s.mutexLock t = some s')
    (hheld : p'.held = (pc t).held) (hin : p'.Inside) (hw : ¬ p'.Waits) (hq : t ∉ s.cv)
    (hlook : p'.Attends ∨ ¬ (pc t).Waits) (htake : ∀ type, p' ≠ .take type)
    (hre : p' ≠ .recount) : RwKept t pc s' p' := by
  have h := hA t
  unfold RwLock.mutexLock at hs
  split_ifs at hs with hm
  cases hs
  have hsite := hI.outside hm
  refine ⟨{ g with woken := g.woken.erase t, site := p' }, ?_, ?_, fun u hu => ?_⟩
  · refine ⟨hI.count, hI.writer, hI.exclusive, nofun, fun hwr hr hcv => ?_⟩
    refine hlook.symm.imp_left fun hnot => ?_
    have hnot' : t ∉ g.woken := fun hmem => hnot (h.woken.mp hmem).1
    rcases hI.stranded hwr hr hcv with hwoken | hatt
    · change (g.woken.erase t).Nonempty
      rwa [Finset.erase_eq_of_notMem hnot']
    · rw [hsite] at hatt
      exact absurd hatt id
  · refine ⟨?_, ?_, iff_of_true rfl hin, fun _ => rfl, fun hq' => absurd hq' hq, ?_,
      fun hq' => absurd hq' hq, fun type hp => absurd hp (htake type),
      fun hp => absurd hp hre, ?_⟩
    · rw [hheld]
      exact h.reads
    · rw [hheld]
      exact h.writes
    · exact iff_of_false (Finset.notMem_erase t _) fun hp => hw hp.1
    · rintro rfl
      exact hin
  · refine (hA u).other hu (fun hin' => ?_) ⟨?_, ?_, ?_, ?_, ?_, ?_⟩
    · rw [(hA u).inside.mpr hin'] at hm
      cases hm
    · exact fun v _ => Iff.rfl
    · exact fun v _ => Iff.rfl
    · exact fun v hv heq => hv (Option.some.inj heq).symm
    · exact fun v _ hv => hv
    · intro v hv
      change v ∈ g.woken.erase t ↔ _
      rw [Finset.mem_erase]
      exact ⟨fun hmem => .inl hmem.2, fun hmem => ⟨hv, hmem.resolve_right fun hq' => hq'.2 hq'.1⟩⟩
    · refine .inr fun hr => .inl (hr.resolve_right ?_)
      rw [hsite]
      exact id

/-- The holder of `m` after a step that leaves it outside the queue. -/
lemma RwAssert.own (h : RwAssert s g t p) (hw : ¬ p.Waits) (hw' : ¬ p'.Waits)
    (hcv : s'.cv ⊆ s.cv) (hwoken : g'.woken ⊆ g.woken ∪ s.cv)
    (hreads : t ∈ g'.readers ↔ p'.held = some .read)
    (hwrites : g'.writer = some t ↔ p'.held = some .write)
    (hinside : s'.m = some t ↔ p'.Inside) (hsite : p'.Inside → g'.site = p')
    (htake : ∀ type, p' = .take type → ¬ s'.MustWait type)
    (hconvert : p' = .recount → s'.writerLocked = false) (hsound : p' ≠ .panicked) :
    RwAssert s' g' t p' where
  reads := hreads
  writes := hwrites
  inside := hinside
  site := hsite
  queued hq := absurd (h.queued (hcv hq)) hw
  woken := by
    refine iff_of_false (fun hmem => hw ?_) fun hp => hw' hp.1
    rcases Finset.mem_union.mp (hwoken hmem) with hmem | hmem
    · exact (h.woken.mp hmem).1
    · exact h.queued hmem
  reader hq := absurd (h.queued (hcv hq)) hw
  take := htake
  convert := hconvert
  sound := hsound

/-- The holder of `m` moves on and writes nothing. -/
lemma RwKept.stay (hI : RwInv s g) (hA : ∀ u, RwAssert s g u (pc u))
    (hin : (pc t).Inside ∧ p'.Inside) (hheld : p'.held = (pc t).held) (hw : ¬ (pc t).Waits)
    (hw' : ¬ p'.Waits) (hflush : (pc t).Flushes → p'.Flushes)
    (hlook : s.writerLocked = false → g.readers = ∅ → s.cv.Nonempty → (pc t).Attends → p'.Attends)
    (htake : ∀ type, p' = .take type → ¬ s.MustWait type) (hre : p' ≠ .recount) :
    RwKept t pc s p' := by
  have h := hA t
  have hm := h.inside.mpr hin.1
  have hsite := h.site hin.1
  refine RwKept.inside { g with site := p' } hA hin.1 ?_ ?_ ?_
  · refine ⟨hI.count, hI.writer, hI.exclusive, fun hnone => ?_, fun hwr hr hcv => ?_⟩
    · rw [hm] at hnone
      cases hnone
    · rcases hI.stranded hwr hr hcv with hwoken | hatt
      · exact .inl hwoken
      · rw [hsite] at hatt
        exact .inr (hlook hwr hr hcv hatt)
  · refine h.own hw hw' (Finset.Subset.refl _) Finset.subset_union_left ?_ ?_
      (iff_of_true hm hin.2) (fun _ => rfl) htake (fun hp => absurd hp hre) ?_
    · rw [hheld]
      exact h.reads
    · rw [hheld]
      exact h.writes
    · rintro rfl
      exact hin.2
  · refine ⟨fun _ _ => Iff.rfl, fun _ _ => Iff.rfl, fun u hu heq => ?_, fun _ _ => id, ?_, .inr ?_⟩
    · rw [hm] at heq
      exact hu (Option.some.inj heq).symm
    · exact fun u _ => ⟨.inl, fun hmem => hmem.resolve_right fun hq => hq.2 hq.1⟩
    · refine Or.imp_right fun hf => ?_
      rw [hsite] at hf
      exact hflush hf

/-- A thread that is not at its place in the queue goes there, and releases `m`. -/
lemma RwKept.wait {type : RwType} (hI : RwInv s g) (hA : ∀ u, RwAssert s g u (pc u))
    (hpc : pc t = .test type) (hwait : s.MustWait type) :
    RwKept t pc (s.condWait t) (.wait type) := by
  have h := hA t
  rw [hpc] at h
  have hin : (RwPc.test type).Inside := trivial
  have hsite := h.site hin
  refine RwKept.inside { g with site := .out } hA (hpc ▸ hin) ?_ ?_ ?_
  · refine ⟨hI.count, hI.writer, hI.exclusive, fun _ => rfl, fun hwr hr _ => ?_⟩
    -- somebody has the lock
    have hcount := hI.count
    rw [hr, Finset.card_empty] at hcount
    change s.writerLocked = false at hwr
    cases type with
    | read =>
        change s.writerLocked = true at hwait
        rw [hwr] at hwait
        cases hwait
    | write =>
        rcases hwait with hwait | hwait
        · rw [hwr] at hwait
          cases hwait
        · omega
  · refine ⟨h.reads, h.writes, iff_of_false nofun id, False.elim, fun _ => trivial, ?_, ?_, nofun,
      nofun, nofun⟩
    · exact h.woken.trans (iff_of_false (fun hp => hp.1) fun hp => hp.2
        (Finset.mem_insert_self t _))
    · intro _ htype
      obtain rfl := RwPc.wait.inj htype
      exact .inl hwait
  · refine ⟨fun _ _ => Iff.rfl, fun _ _ => Iff.rfl, nofun, ?_, ?_, .inr ?_⟩
    · exact fun u hu hmem => (Finset.mem_insert.mp hmem).resolve_left hu
    · refine fun u _ => ⟨.inl, fun hmem => hmem.resolve_right fun hq => ?_⟩
      exact hq.2 (Finset.mem_insert_of_mem hq.1)
    · refine Or.imp_right fun hf => ?_
      rw [hsite] at hf
      exact hf

/-- A reader takes the lock. -/
lemma RwKept.takeRead (hI : RwInv s g) (hA : ∀ u, RwAssert s g u (pc u))
    (hin : (pc t).Inside) (hw : ¬ (pc t).Waits) (hheld : (pc t).held = none)
    (hwr : s.writerLocked = false) (hp : p' = .leave (some .read) ∧ ¬ (pc t).Flushes ∨
      p' = .broadcast (some .read)) :
    RwKept t pc { s with count := s.count + 1 } p' := by
  have h := hA t
  have hm := h.inside.mpr hin
  have hsite := h.site hin
  have hnot : t ∉ g.readers := by
    rw [h.reads, hheld]
    nofun
  refine RwKept.inside { g with readers := insert t g.readers, site := p' } hA hin ?_ ?_ ?_
  · refine ⟨?_, hI.writer, ?_, ?_, ?_⟩
    · change s.count + 1 = ((insert t g.readers).card : ℤ)
      rw [Finset.card_insert_of_notMem hnot, hI.count]
      push_cast
      rfl
    · intro hwr'
      change s.writerLocked = true at hwr'
      rw [hwr] at hwr'
      cases hwr'
    · intro hnone
      change s.m = none at hnone
      rw [hm] at hnone
      cases hnone
    · intro _ hempty
      exact absurd hempty (Finset.insert_ne_empty t _)
  · refine h.own hw ?_ (Finset.Subset.refl _) Finset.subset_union_left ?_ ?_ (iff_of_true hm ?_)
      (fun _ => rfl) ?_ ?_ ?_
    · rcases hp with ⟨rfl, -⟩ | rfl <;> exact id
    · refine iff_of_true (Finset.mem_insert_self t _) ?_
      rcases hp with ⟨rfl, -⟩ | rfl <;> rfl
    · refine h.writes.trans (iff_of_false ?_ ?_)
      · rw [hheld]
        nofun
      · rcases hp with ⟨rfl, -⟩ | rfl <;> nofun
    · rcases hp with ⟨rfl, -⟩ | rfl <;> trivial
    · rcases hp with ⟨rfl, -⟩ | rfl <;> nofun
    · rcases hp with ⟨rfl, -⟩ | rfl <;> nofun
    · rcases hp with ⟨rfl, -⟩ | rfl <;> nofun
  · refine ⟨?_, fun _ _ => Iff.rfl, ?_, fun _ _ => id, ?_, .inr ?_⟩
    · exact fun u hu => Finset.mem_insert.trans (or_iff_right hu)
    · intro u hu heq
      change s.m = some u at heq
      rw [hm] at heq
      exact hu (Option.some.inj heq).symm
    · exact fun u _ => ⟨.inl, fun hmem => hmem.resolve_right fun hq => hq.2 hq.1⟩
    · refine Or.imp_right fun hf => ?_
      rw [hsite] at hf
      rcases hp with ⟨-, hnf⟩ | rfl
      · exact absurd hf hnf
      · trivial

/-- A writer takes the lock. -/
lemma RwKept.takeWrite (hI : RwInv s g) (hA : ∀ u, RwAssert s g u (pc u))
    (hpc : pc t = .take .write) :
    RwKept t pc { s with writerLocked := true } (.leave (some .write)) := by
  have h := hA t
  rw [hpc] at h
  have hin : (RwPc.take .write).Inside := trivial
  have hm := h.inside.mpr hin
  have hfree := h.take .write rfl
  have hsite := h.site hin
  -- nobody has the lock
  have hwr : g.writer = none := by
    by_contra hne
    exact hfree (.inl (hI.writer.mpr hne))
  have hempty : g.readers = ∅ := by
    rw [← Finset.card_eq_zero]
    have hcount := hI.count
    by_contra hne
    exact hfree (.inr (by omega))
  have hnot : t ∉ g.readers := by
    rw [hempty]
    exact Finset.notMem_empty t
  refine RwKept.inside { g with writer := some t, site := .leave (some .write) } hA (hpc ▸ hin)
    ?_ ?_ ?_
  · refine ⟨hI.count, iff_of_true rfl nofun, fun _ => hempty, fun hnone => ?_, nofun⟩
    change s.m = none at hnone
    rw [hm] at hnone
    cases hnone
  · exact h.own id id (Finset.Subset.refl _) Finset.subset_union_left (iff_of_false hnot nofun)
      (iff_of_true rfl rfl) (iff_of_true hm trivial) (fun _ => rfl) nofun nofun nofun
  · refine ⟨fun _ _ => Iff.rfl, fun u hu => ?_, fun u hu heq => ?_, fun _ _ => id, ?_,
      .inr fun _ => .inl rfl⟩
    · rw [hwr]
      exact iff_of_false (fun heq => hu (Option.some.inj heq).symm) nofun
    · change s.m = some u at heq
      rw [hm] at heq
      exact hu (Option.some.inj heq).symm
    · exact fun u _ => ⟨.inl, fun hmem => hmem.resolve_right fun hq => hq.2 hq.1⟩

/-- A writer gives up the lock, and goes on to wake up all the waiters. -/
lemma RwKept.dropWriter (hI : RwInv s g) (hA : ∀ u, RwAssert s g u (pc u)) (hin : (pc t).Inside)
    (hw : ¬ (pc t).Waits) (hheld : (pc t).held = some .write)
    (hp : p' = .broadcast none ∨ p' = .recount) :
    RwKept t pc { s with writerLocked := false } p' := by
  have h := hA t
  have hm := h.inside.mpr hin
  have hwriter := h.writes.mpr hheld
  have hexcl := hI.exclusive (hI.writer.mpr (by rw [hwriter]; nofun))
  have hp' : p'.Inside ∧ p'.Attends ∧ p'.Flushes ∧ p'.held = none ∧ ¬ p'.Waits ∧
      ∀ type, p' ≠ .take type := by
    rcases hp with rfl | rfl
    · exact ⟨trivial, trivial, trivial, rfl, id, nofun⟩
    · exact ⟨trivial, trivial, trivial, rfl, id, nofun⟩
  obtain ⟨hin', hatt, hflush, hheld', hw', htake⟩ := hp'
  refine RwKept.inside { g with writer := none, site := p' } hA hin ?_ ?_ ?_
  · refine ⟨hI.count, iff_of_false nofun fun hne => hne rfl, nofun, fun hnone => ?_,
      fun _ _ _ => .inr hatt⟩
    change s.m = none at hnone
    rw [hm] at hnone
    cases hnone
  · refine h.own hw hw' (Finset.Subset.refl _) Finset.subset_union_left (iff_of_false ?_ ?_)
      (iff_of_false nofun ?_) (iff_of_true hm hin') (fun _ => rfl)
      (fun type heq => absurd heq (htake type)) (fun _ => rfl) ?_
    · rw [hexcl]
      exact Finset.notMem_empty t
    · rw [hheld']
      nofun
    · rw [hheld']
      nofun
    · rintro rfl
      exact hin'
  · refine ⟨fun _ _ => Iff.rfl, fun u hu => ?_, fun u hu heq => ?_, fun _ _ => id, ?_,
      .inr fun _ => .inr hflush⟩
    · rw [hwriter]
      exact iff_of_false nofun fun heq => hu (Option.some.inj heq).symm
    · change s.m = some u at heq
      rw [hm] at heq
      exact hu (Option.some.inj heq).symm
    · exact fun u _ => ⟨.inl, fun hmem => hmem.resolve_right fun hq => hq.2 hq.1⟩

/-- A reader gives up the lock. -/
lemma RwKept.dropReader {type : RwType} (hI : RwInv s g) (hA : ∀ u, RwAssert s g u (pc u))
    (hpc : pc t = .release type) (hwr : s.writerLocked = false) :
    RwKept t pc { s with count := s.count - 1 } .counted := by
  have h := hA t
  rw [hpc] at h
  have hin : (RwPc.release type).Inside := trivial
  have hm := h.inside.mpr hin
  have hsite := h.site hin
  have hnone : g.writer = none := by
    by_contra hne
    rw [hI.writer.mpr hne] at hwr
    cases hwr
  have hmem : t ∈ g.readers := by
    cases type with
    | read => exact h.reads.mpr rfl
    | write =>
        have hwriter := h.writes.mpr rfl
        rw [hnone] at hwriter
        cases hwriter
  refine RwKept.inside { g with readers := g.readers.erase t, site := .counted } hA (hpc ▸ hin)
    ?_ ?_ ?_
  · refine ⟨?_, hI.writer, fun hwr' => ?_, fun hm' => ?_, fun _ _ _ => .inr trivial⟩
    · change s.count - 1 = ((g.readers.erase t).card : ℤ)
      have hcard := Finset.card_erase_add_one hmem
      have hcount := hI.count
      omega
    · change s.writerLocked = true at hwr'
      rw [hwr] at hwr'
      cases hwr'
    · change s.m = none at hm'
      rw [hm] at hm'
      cases hm'
  · refine h.own id id (Finset.Subset.refl _) Finset.subset_union_left
      (iff_of_false (Finset.notMem_erase t _) nofun) (iff_of_false ?_ nofun)
      (iff_of_true hm trivial) (fun _ => rfl) nofun nofun nofun
    rw [hnone]
    nofun
  · refine ⟨fun u hu => ?_, fun _ _ => Iff.rfl, fun u hu heq => ?_, fun _ _ => id, ?_, .inr ?_⟩
    · exact Finset.mem_erase.trans (and_iff_right hu)
    · change s.m = some u at heq
      rw [hm] at heq
      exact hu (Option.some.inj heq).symm
    · exact fun u _ => ⟨.inl, fun hmem => hmem.resolve_right fun hq => hq.2 hq.1⟩
    · refine Or.imp_right fun hf => ?_
      rw [hsite] at hf
      exact absurd hf id

/-- Some of the waiters are woken up: one of them, or all. -/
lemma RwKept.wake (hI : RwInv s g) (hA : ∀ u, RwAssert s g u (pc u)) (hin : (pc t).Inside)
    (hw : ¬ (pc t).Waits) (hheld : (pc t).held = p'.held) {cv : Finset ℕ} (hcv : cv ⊆ s.cv)
    (hp : p' = .leave (pc t).held) (hsome : cv.Nonempty → (s.cv \ cv).Nonempty)
    (hflush : cv = ∅ ∨ ¬ (pc t).Flushes) :
    RwKept t pc { s with cv := cv } p' := by
  have h := hA t
  have hm := h.inside.mpr hin
  have hsite := h.site hin
  have hp' : p'.Inside ∧ ¬ p'.Waits ∧ p' ≠ .panicked ∧ p' ≠ .recount ∧
      ∀ type, p' ≠ .take type := by
    rw [hp]
    exact ⟨trivial, id, nofun, nofun, nofun⟩
  obtain ⟨hin', hw', hsound, hre, htake⟩ := hp'
  refine RwKept.inside { g with woken := g.woken ∪ (s.cv \ cv), site := p' } hA hin ?_ ?_ ?_
  · refine ⟨hI.count, hI.writer, hI.exclusive, fun hnone => ?_, fun _ _ hne => .inl ?_⟩
    · change s.m = none at hnone
      rw [hm] at hnone
      cases hnone
    · exact (hsome hne).mono Finset.subset_union_right
  · refine h.own hw hw' hcv ?_ ?_ ?_ (iff_of_true hm hin') (fun _ => rfl)
      (fun type heq => absurd heq (htake type)) (fun heq => absurd heq hre) hsound
    · exact Finset.union_subset_union_right Finset.sdiff_subset
    · rw [← hheld]
      exact h.reads
    · rw [← hheld]
      exact h.writes
  · refine ⟨fun _ _ => Iff.rfl, fun _ _ => Iff.rfl, fun u hu heq => ?_,
      fun u _ hu => hcv hu, ?_, ?_⟩
    · change s.m = some u at heq
      rw [hm] at heq
      exact hu (Option.some.inj heq).symm
    · exact fun u _ => Finset.mem_union.trans (or_congr_right Finset.mem_sdiff)
    · refine hflush.imp id fun hnf => Or.imp_right fun hf => ?_
      rw [hsite] at hf
      exact absurd hf hnf

/-- A thread releases `m`. -/
lemma RwKept.leave {held : Option RwType} (hI : RwInv s g) (hA : ∀ u, RwAssert s g u (pc u))
    (hpc : pc t = .leave held) (hheld : p'.held = held) (hin' : ¬ p'.Inside) (hw' : ¬ p'.Waits)
    (hsound : p' ≠ .panicked) : RwKept t pc s.mutexUnlock p' := by
  have h := hA t
  rw [hpc] at h
  have hin : (RwPc.leave held).Inside := trivial
  have hsite := h.site hin
  refine RwKept.inside { g with site := .out } hA (hpc ▸ hin) ?_ ?_ ?_
  · refine ⟨hI.count, hI.writer, hI.exclusive, fun _ => rfl, fun hwr hr hcv => .inl ?_⟩
    refine (hI.stranded hwr hr hcv).resolve_right fun hatt => ?_
    rw [hsite] at hatt
    exact hatt
  · refine h.own id hw' (Finset.Subset.refl _) Finset.subset_union_left ?_ ?_
      (iff_of_false nofun hin') (fun hp => absurd hp hin')
      (fun type heq => absurd (by rw [heq]; trivial) hin')
      (fun heq => absurd (by rw [heq]; trivial) hin') hsound
    · rw [hheld]
      exact h.reads
    · rw [hheld]
      exact h.writes
  · refine ⟨fun _ _ => Iff.rfl, fun _ _ => Iff.rfl, nofun, fun _ _ => id, ?_, .inr ?_⟩
    · exact fun u _ => ⟨.inl, fun hmem => hmem.resolve_right fun hq => hq.2 hq.1⟩
    · refine Or.imp_right fun hf => ?_
      rw [hsite] at hf
      exact absurd hf id

/-- A test of the holder of `m` that panics does not. -/
lemma not_panics (hI : RwInv s g) (hA : ∀ u, RwAssert s g u (pc u)) {type : RwType}
    (hpc : pc t = .unlockCheck type) : ¬ (s.count ≤ 0 ∧ s.writerLocked = false) := by
  rintro ⟨hcount, hwr⟩
  have h := hA t
  rw [hpc] at h
  cases type with
  | read =>
      have hpos := Finset.card_pos.mpr ⟨t, h.reads.mpr rfl⟩
      have hcard := hI.count
      omega
  | write =>
      rw [hI.writer.mpr (by rw [h.writes.mpr rfl]; nofun)] at hwr
      cases hwr

/-- **Every step keeps the invariant and the assertions.** -/
theorem rwStep_kept (hI : RwInv s g) (hA : ∀ u, RwAssert s g u (pc u)) {a : RwAct}
    (hs : rwStep s t (pc t) a = some (s', p')) : RwKept t pc s' p' := by
  have h := hA t
  generalize hpc : pc t = p at hs h
  cases p with
  -- the calls
  | out =>
      cases a with
      | lock type =>
          cases hs
          exact RwKept.move hI hA (by rw [hpc]; rfl) ⟨by rw [hpc]; exact id, id⟩
            ⟨by rw [hpc]; exact id, id⟩ nofun
      | _ => cases hs
  | holding type =>
      cases a with
      | unlock =>
          cases hs
          exact RwKept.move hI hA (by rw [hpc]; rfl) ⟨by rw [hpc]; exact id, id⟩
            ⟨by rw [hpc]; exact id, id⟩ nofun
      | downgrade =>
          cases type with
          | write =>
              cases hs
              exact RwKept.move hI hA (by rw [hpc]; rfl) ⟨by rw [hpc]; exact id, id⟩
                ⟨by rw [hpc]; exact id, id⟩ nofun
          | read => cases hs
      | _ => cases hs
  -- `rwlock_lock`
  | lock type =>
      cases a with
      | run =>
          obtain ⟨s₁, hs₁, heq⟩ := Option.map_eq_some_iff.mp hs
          cases heq
          exact RwKept.lock hI hA hs₁ (by rw [hpc]; rfl) trivial id (fun hq => h.queued hq)
            (.inl trivial) nofun nofun
      | _ => cases hs
  | check type =>
      cases a with
      | run =>
          rw [rwStep] at hs
          split_ifs at hs with hneg
          · have hcount := hI.count
            omega
          · cases hs
            exact RwKept.stay hI hA ⟨by rw [hpc]; trivial, trivial⟩ (by rw [hpc]; rfl)
              (by rw [hpc]; exact id) id (by rw [hpc]; exact id)
              (fun _ _ _ _ => trivial) nofun nofun
      | _ => cases hs
  | test type =>
      cases a with
      | run =>
          rw [rwStep] at hs
          split_ifs at hs with hwait
          · cases hs
            exact RwKept.wait hI hA hpc hwait
          · cases hs
            refine RwKept.stay hI hA ⟨by rw [hpc]; trivial, trivial⟩ (by rw [hpc]; rfl)
              (by rw [hpc]; exact id) id (by rw [hpc]; exact id) (fun _ _ _ _ => trivial) ?_ nofun
            intro type htype
            obtain rfl := RwPc.take.inj htype
            exact hwait
      | _ => cases hs
  | wait type =>
      cases a with
      | run =>
          rw [rwStep] at hs
          split_ifs at hs with hq
          obtain ⟨s₁, hs₁, heq⟩ := Option.map_eq_some_iff.mp hs
          cases heq
          exact RwKept.lock hI hA hs₁ (by rw [hpc]; rfl) trivial id hq (.inl trivial) nofun nofun
      | _ => cases hs
  | take type =>
      cases a with
      | run =>
          cases hs
          cases type with
          | read =>
              have hfree := h.take .read rfl
              exact RwKept.takeRead hI hA (by rw [hpc]; trivial) (by rw [hpc]; exact id)
                (by rw [hpc]; rfl)
                (Bool.eq_false_of_not_eq_true hfree) (.inl ⟨rfl, by rw [hpc]; exact id⟩)
          | write => exact RwKept.takeWrite hI hA hpc
      | _ => cases hs
  -- `rwlock_unlock`
  | unlock type =>
      cases a with
      | run =>
          obtain ⟨s₁, hs₁, heq⟩ := Option.map_eq_some_iff.mp hs
          cases heq
          exact RwKept.lock hI hA hs₁ (by rw [hpc]; rfl) trivial id (fun hq => h.queued hq)
            (.inr (by rw [hpc]; exact id)) nofun nofun
      | _ => cases hs
  | unlockCheck type =>
      cases a with
      | run =>
          rw [rwStep] at hs
          split_ifs at hs with hpanic
          · exact absurd hpanic (not_panics hI hA hpc)
          · cases hs
            exact RwKept.stay hI hA ⟨by rw [hpc]; trivial, trivial⟩ (by rw [hpc]; rfl)
              (by rw [hpc]; exact id) id (by rw [hpc]; exact id)
              (by rw [hpc]; exact fun _ _ _ => id)
              nofun nofun
      | _ => cases hs
  | release type =>
      cases a with
      | run =>
          rw [rwStep] at hs
          split_ifs at hs with hwr
          · cases hs
            refine RwKept.dropWriter hI hA (by rw [hpc]; trivial)
              (by rw [hpc]; exact id) ?_ (.inl rfl)
            rw [hpc]
            cases type with
            | write => rfl
            | read =>
                -- no reader has the lock along with a writer
                have hmem := h.reads.mpr rfl
                rw [hI.exclusive hwr] at hmem
                exact absurd hmem (Finset.notMem_empty t)
          · cases hs
            exact RwKept.dropReader hI hA hpc (Bool.eq_false_of_not_eq_true hwr)
      | _ => cases hs
  | counted =>
      cases a with
      | run =>
          rw [rwStep] at hs
          split_ifs at hs with hzero
          · cases hs
            exact RwKept.stay hI hA ⟨by rw [hpc]; trivial, trivial⟩ (by rw [hpc]; rfl)
              (by rw [hpc]; exact id) id (by rw [hpc]; exact id)
              (fun _ _ _ _ => trivial) nofun nofun
          · cases hs
            refine RwKept.stay hI hA ⟨by rw [hpc]; trivial, trivial⟩ (by rw [hpc]; rfl)
              (by rw [hpc]; exact id) id (by rw [hpc]; exact id)
              (fun _ hr _ _ => hzero ?_) nofun nofun
            rw [hI.count, hr]
            rfl
      | _ => cases hs
  | signal =>
      cases a with
      | wake w =>
          rw [rwStep] at hs
          split_ifs at hs with hmem
          cases hs
          refine RwKept.wake hI hA (by rw [hpc]; trivial) (by rw [hpc]; exact id) (by rw [hpc]; rfl)
            (Finset.erase_subset w _) (by rw [hpc]; rfl) (fun _ => ⟨w, ?_⟩)
            (.inr (by rw [hpc]; exact id))
          exact Finset.mem_sdiff.mpr ⟨hmem, Finset.notMem_erase w _⟩
      | run =>
          rw [rwStep] at hs
          split_ifs at hs with hempty
          cases hs
          refine RwKept.stay hI hA ⟨by rw [hpc]; trivial, trivial⟩ (by rw [hpc]; rfl)
            (by rw [hpc]; exact id) id (by rw [hpc]; exact id) (fun _ _ hne _ => ?_) nofun nofun
          rw [hempty] at hne
          exact absurd hne Finset.not_nonempty_empty
      | _ => cases hs
  -- `rwlock_downgrade`
  | downgrade =>
      cases a with
      | run =>
          obtain ⟨s₁, hs₁, heq⟩ := Option.map_eq_some_iff.mp hs
          cases heq
          exact RwKept.lock hI hA hs₁ (by rw [hpc]; rfl) trivial id (fun hq => h.queued hq)
            (.inr (by rw [hpc]; exact id)) nofun nofun
      | _ => cases hs
  | downgradeCheck =>
      cases a with
      | run =>
          rw [rwStep] at hs
          split_ifs at hs with hwr
          · cases hs
            exact RwKept.stay hI hA ⟨by rw [hpc]; trivial, trivial⟩ (by rw [hpc]; rfl)
              (by rw [hpc]; exact id) id (by rw [hpc]; exact id)
              (by rw [hpc]; exact fun _ _ _ => id)
              nofun nofun
          · refine absurd (hI.writer.mpr ?_) hwr
            rw [h.writes.mpr rfl]
            nofun
      | _ => cases hs
  | convert =>
      cases a with
      | run =>
          cases hs
          exact RwKept.dropWriter hI hA (by rw [hpc]; trivial) (by rw [hpc]; exact id)
            (by rw [hpc]; rfl)
            (.inr rfl)
      | _ => cases hs
  | recount =>
      cases a with
      | run =>
          cases hs
          exact RwKept.takeRead hI hA (by rw [hpc]; trivial) (by rw [hpc]; exact id)
            (by rw [hpc]; rfl)
            (h.convert rfl) (.inr rfl)
      | _ => cases hs
  -- the end of each of them
  | broadcast held =>
      cases a with
      | run =>
          cases hs
          exact RwKept.wake hI hA (by rw [hpc]; trivial) (by rw [hpc]; exact id) (by rw [hpc]; rfl)
            (Finset.empty_subset _) (by rw [hpc]; rfl)
            (fun hne => absurd hne Finset.not_nonempty_empty)
            (.inl rfl)
      | _ => cases hs
  | leave held =>
      -- what the thread holds on its way out decides where it goes
      cases held with
      | some type =>
          cases a with
          | run =>
              cases hs
              exact RwKept.leave hI hA hpc rfl id id nofun
          | _ => cases hs
      | none =>
          cases a with
          | run =>
              cases hs
              exact RwKept.leave hI hA hpc rfl id id nofun
          | _ => cases hs
  | panicked => cases a <;> cases hs

/-- In every run the threads are annotated. -/
lemma rwAnnotated {r : RwLock × (ℕ → RwPc)} (h : rwThreads.machine.Reachable r) :
    Threads.Annotated RwInv RwAssert r := by
  refine Threads.annotated_of_reach ?_ ?_ h
  · rintro _ rfl
    refine ⟨⟨∅, none, ∅, .out⟩, ⟨rfl, ?_, nofun, fun _ => rfl, fun _ _ hne => ?_⟩, fun t => ?_⟩
    · exact iff_of_false nofun fun hne => hne rfl
    · exact absurd hne Finset.not_nonempty_empty
    · have hempty := Finset.notMem_empty t
      exact ⟨iff_of_false hempty nofun, iff_of_false nofun nofun, iff_of_false nofun id,
        False.elim, fun hq => absurd hq hempty, iff_of_false hempty fun hp => hp.1,
        fun hq => absurd hq hempty, nofun, nofun, nofun⟩
  · intro s pc g t a s' p' hI hA _ hs
    exact rwStep_kept hI hA hs

/-- **The readers/writers lock** in every run, when nobody holds its mutex: readers and writers
exclude each other, there is at most one writer, the count is that of the readers, and if the
lock is free while threads are queued then a thread that was woken up has not looked yet. -/
theorem rwSafe_of_reachable {r : RwLock × (ℕ → RwPc)} (h : rwThreads.machine.Reachable r)
    (hm : r.1.m = none) : RwSafe r.1 r.2 := by
  obtain ⟨g, hI, hA⟩ := rwAnnotated h
  have hcount := hI.count
  refine ⟨fun ⟨hwr, hpos⟩ => ?_, fun t u ht hu => ?_, ?_, fun hwr hzero hne => ?_⟩
  · rw [hI.exclusive hwr, Finset.card_empty] at hcount
    omega
  · have ht' := (hA t).writes.mpr ht
    rw [(hA u).writes.mpr hu] at ht'
    exact (Option.some.inj ht').symm
  · have hreaders : {t | (r.2 t).held = some .read} = ↑g.readers :=
      Set.ext fun t => (hA t).reads.symm
    rw [hcount, hreaders, Set.ncard_coe_finset]
  · have hempty : g.readers = ∅ := Finset.card_eq_zero.mp (by omega)
    rcases hI.stranded hwr hempty hne with ⟨t, ht⟩ | hatt
    · exact ⟨t, (hA t).woken.mp ht⟩
    · rw [hI.outside hm] at hatt
      exact absurd hatt id

/-! ### A run -/

/-- Thread 0 reads, the writers 1 and 2 queue up, and thread 0 unlocks and wakes up thread 1. -/
def rwRun : List (ℕ × RwAct) :=
  [(0, .lock .read), (0, .run), (0, .run), (0, .run), (0, .run), (0, .run),
    (1, .lock .write), (1, .run), (1, .run), (1, .run),
    (2, .lock .write), (2, .run), (2, .run), (2, .run),
    (0, .unlock), (0, .run), (0, .run), (0, .run), (0, .run), (0, .wake 1), (0, .run)]

/-- The lock is free, thread 2 is queued, and thread 1 has not looked yet. -/
theorem rwSafe_of_reachable_rwRun :
    ∃ r, Machine.replay rwThreads.next (rwlockInit, fun _ => .out) rwRun = some r ∧
      r.1 = ⟨none, {2}, 0, false⟩ ∧ r.2 1 = .wait .write ∧ RwSafe r.1 r.2 := by
  have hrun : (Machine.replay rwThreads.next (rwlockInit, fun _ => .out) rwRun).map
      (fun r => (r.1, r.2 1)) = some (⟨none, {2}, 0, false⟩, .wait .write) := by decide +kernel
  rw [Option.map_eq_some_iff] at hrun
  obtain ⟨r, hr, heq⟩ := hrun
  obtain ⟨hlock, hpc⟩ := Prod.mk.inj heq
  refine ⟨r, hr, hlock, hpc, rwSafe_of_reachable ?_ (by rw [hlock])⟩
  exact Machine.reach_of_replay (fun _ _ _ h => h) rwRun (fun _ _ _ => trivial) (.init rfl) hr

end ShrekOS
