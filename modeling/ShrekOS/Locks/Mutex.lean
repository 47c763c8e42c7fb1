/-
The kernel mutex of `kern/locks/mutex.c` after the scheduler has started, used by any number
of threads.

* `MutexT`, `MutexPc`, `mutexStep`: the mutex, where a thread is, and the steps of
  `mutex_lock` and `mutex_unlock`: every `xchng`, every write and every read of `owner` is one;
* `MutexInv`, `MutexAssert`: the invariant and the assertion of a program counter, over the
  thread that has the mutex;
* `MutexSafe`, `mutexSafe_of_reachable`: **mutual exclusion**, and the owner is nobody else
  than the thread that has the mutex;
* `not_currentTargets_lateRun`: that thread may be gone when a spinning thread yields to it.
-/
import ShrekOS.Lib.Threads

namespace ShrekOS

open Kit

/-- `mutex_t`. -/
structure MutexT where
  lock : ℤ
  owner : ℤ
  deriving DecidableEq

/-- Where a thread is: outside, in `mutex_lock` with its `cur_tid`, with the mutex, or in
`mutex_unlock`. -/
inductive MutexPc where
  | out
  | enter
  | spin (curTid : ℤ)
  | look (curTid : ℤ)
  | yield (curTid target : ℤ)
  | yieldAny (curTid : ℤ)
  | own (curTid : ℤ)
  | inside
  | disown
  | release
  deriving DecidableEq

/-- The calls of a thread, its next step, and a call in it that fails. -/
inductive MutexAct where
  | lock
  | unlock
  | run
  | fail

/-- The steps of a thread; it unlocks a mutex that it has. -/
def mutexStep (s : MutexT) (t : ℕ) : MutexPc → MutexAct → Option (MutexT × MutexPc)
  -- `mutex_lock`
  | .out, .lock => some (s, .enter)
  -- `scheduler_get_current_tid`
  | .enter, .run => some (s, .spin t)
  | .enter, .fail => some (s, .spin (-1))
  -- `xchng(&mp->lock, 0)`
  | .spin curTid, .run =>
      if s.lock = 0 then some ({ s with lock := 0 }, .look curTid)
      else some ({ s with lock := 0 }, .own curTid)
  | .look curTid, .run => some (s, .yield curTid s.owner)
  -- `thr_kern_yield`
  | .yield curTid _, .run => some (s, .spin curTid)
  | .yield curTid _, .fail => some (s, .yieldAny curTid)
  | .yieldAny curTid, .run => some (s, .spin curTid)
  | .own curTid, .run => some ({ s with owner := curTid }, .inside)
  -- `mutex_unlock`
  | .inside, .unlock => some (s, .disown)
  | .disown, .run => some ({ s with owner := -1 }, .release)
  | .release, .run => some ({ s with lock := 1 }, .out)
  | _, _ => none

/-- `mutex_init`. -/
def mutexInit : MutexT where
  lock := 1
  owner := -1

/-- The threads that use a mutex. -/
def mutexThreads : Threads MutexT MutexPc MutexAct where
  init s := s = (mutexInit, fun _ => .out)
  step := mutexStep

namespace MutexPc

/-- The thread is between its successful `xchng` in `mutex_lock` and the `xchng` of
`mutex_unlock`. -/
@[simp] def Between : MutexPc → Prop
  | .own _ | .inside | .disown | .release => True
  | _ => False

/-- The thread has not written itself as the owner, or has taken that back. -/
@[simp] def Anonymous : MutexPc → Prop
  | .own _ | .release => True
  | _ => False

/-- What the thread takes for its own tid. -/
@[simp] def curTid : MutexPc → Option ℤ
  | .spin curTid | .look curTid | .yield curTid _ | .yieldAny curTid | .own curTid => some curTid
  | _ => none

end MutexPc

/-- A number that names nobody, or the thread that has the mutex. -/
def NamesHolder (pc : ℕ → MutexPc) (tid : ℤ) : Prop := tid = -1 ∨ ∃ t, (pc t).Between ∧ tid = t

/-- The mutex is safe. -/
structure MutexSafe (s : MutexT) (pc : ℕ → MutexPc) : Prop where
  exclusive : ∀ t u, (pc t).Between → (pc u).Between → t = u
  owner : NamesHolder pc s.owner
  /-- a spinning thread reads a current owner for its `thr_kern_yield` -/
  target : ∀ t curTid target s', mutexStep s t (pc t) .run = some (s', .yield curTid target) →
    NamesHolder pc target

/-- Every thread that is about to yield yields to nobody, or to the thread that has the
mutex. -/
def CurrentTargets (pc : ℕ → MutexPc) : Prop :=
  ∀ t curTid target, pc t = .yield curTid target → NamesHolder pc target

/-! ### The invariant -/

/-- **The invariant of a mutex** that the given thread has. -/
structure MutexInv (s : MutexT) (holder : Option ℕ) : Prop where
  lock : s.lock = if holder = none then 1 else 0
  owner : s.owner = -1 ∨ ∃ t, holder = some t ∧ s.owner = t

/-- The assertion of a thread. -/
structure MutexAssert (s : MutexT) (holder : Option ℕ) (t : ℕ) (p : MutexPc) : Prop where
  between : holder = some t ↔ p.Between
  anonymous : p.Anonymous → s.owner = -1
  curTid : ∀ tid, p.curTid = some tid → tid = -1 ∨ tid = t

variable {s s' : MutexT} {holder : Option ℕ} {t u : ℕ} {pc : ℕ → MutexPc} {p p' : MutexPc}

/-- What a step of a thread establishes. -/
def MutexKept (t : ℕ) (pc : ℕ → MutexPc) (s' : MutexT) (p' : MutexPc) : Prop :=
  ∃ holder', MutexInv s' holder' ∧ MutexAssert s' holder' t p' ∧
    ∀ u, u ≠ t → MutexAssert s' holder' u (pc u)

/-- A step that does not write. -/
lemma MutexKept.move (hI : MutexInv s holder) (hA : ∀ u, MutexAssert s holder u (pc u))
    (hbetween : p'.Between ↔ (pc t).Between) (hanon : ¬ p'.Anonymous)
    (hcur : ∀ tid, p'.curTid = some tid → tid = -1 ∨ tid = t) : MutexKept t pc s p' :=
  ⟨holder, hI, ⟨(hA t).between.trans hbetween.symm, fun h => absurd h hanon, hcur⟩,
    fun u _ => hA u⟩

/-- Nobody is between its exchanges but the thread itself. -/
lemma MutexAssert.not_between (h : MutexAssert s holder u p) (hu : u ≠ t)
    (ht : holder = none ∨ holder = some t) : ¬ p.Between := by
  rw [← h.between]
  rintro rfl
  rcases ht with ht | ht
  · cases ht
  · exact hu (Option.some.inj ht)

/-- Another thread, when the mutex is written by one that has it or takes it. -/
lemma MutexAssert.other {holder' : Option ℕ} (h : MutexAssert s holder u p) (hu : u ≠ t)
    (ht : holder = none ∨ holder = some t) (ht' : holder' = none ∨ holder' = some t) :
    MutexAssert s' holder' u p := by
  have hnot := h.not_between hu ht
  refine ⟨iff_of_false ?_ hnot, fun hanon => absurd ?_ hnot, h.curTid⟩
  · rcases ht' with rfl | rfl
    · rintro ⟨⟩
    · exact fun heq => hu (Option.some.inj heq).symm
  · cases p <;> first | exact hanon | exact hanon.elim

/-- A thread that spins makes an exchange. -/
lemma mutex_xchng {tid : ℤ} (hI : MutexInv s holder) (hA : ∀ u, MutexAssert s holder u (pc u))
    (hpc : pc t = .spin tid)
    (hs : (if s.lock = 0 then some ({ s with lock := 0 }, MutexPc.look tid)
      else some ({ s with lock := 0 }, .own tid)) = some (s', p')) : MutexKept t pc s' p' := by
  have h := hA t
  rw [hpc] at h
  have hcur := h.curTid tid rfl
  have hlock := hI.lock
  split_ifs at hs with hzero
  · -- somebody else has the mutex
    obtain ⟨rfl, rfl⟩ := Prod.mk.inj (Option.some.inj hs)
    have hsame : { s with lock := 0 } = s := by rw [← hzero]
    rw [hsame]
    refine MutexKept.move hI hA (by rw [hpc]; exact Iff.rfl) id fun tid' htid => ?_
    obtain rfl := Option.some.inj htid
    exact hcur
  · obtain ⟨rfl, rfl⟩ := Prod.mk.inj (Option.some.inj hs)
    have hnone : holder = none := by
      by_contra hne
      rw [if_neg hne] at hlock
      exact hzero hlock
    have howner : s.owner = -1 := by
      rcases hI.owner with howner | ⟨u, hu, -⟩
      · exact howner
      · rw [hnone] at hu
        cases hu
    refine ⟨some t, ⟨rfl, .inl howner⟩, ⟨iff_of_true rfl trivial, fun _ => howner, ?_⟩,
      fun u hu => (hA u).other hu (.inl hnone) (.inr rfl)⟩
    intro tid' htid
    obtain rfl := Option.some.inj htid
    exact hcur

/-- **Every step keeps the invariant and the assertions.** -/
theorem mutexStep_kept (hI : MutexInv s holder) (hA : ∀ u, MutexAssert s holder u (pc u))
    {a : MutexAct} (hs : mutexStep s t (pc t) a = some (s', p')) : MutexKept t pc s' p' := by
  have h := hA t
  generalize hpc : pc t = p at hs h
  unfold mutexStep at hs
  split at hs
  case h_1 =>
    obtain ⟨rfl, rfl⟩ := Prod.mk.inj (Option.some.inj hs)
    exact MutexKept.move hI hA (by rw [hpc]; exact Iff.rfl) id fun _ htid => by cases htid
  case h_2 =>
    obtain ⟨rfl, rfl⟩ := Prod.mk.inj (Option.some.inj hs)
    refine MutexKept.move hI hA (by rw [hpc]; exact Iff.rfl) id fun tid htid => .inr ?_
    exact (Option.some.inj htid).symm
  case h_3 =>
    obtain ⟨rfl, rfl⟩ := Prod.mk.inj (Option.some.inj hs)
    refine MutexKept.move hI hA (by rw [hpc]; exact Iff.rfl) id fun tid htid => .inl ?_
    exact (Option.some.inj htid).symm
  case h_4 tid => exact mutex_xchng hI hA hpc hs
  case h_5 | h_6 | h_7 | h_8 =>
    -- a thread that spins
    obtain ⟨rfl, rfl⟩ := Prod.mk.inj (Option.some.inj hs)
    exact MutexKept.move hI hA (by rw [hpc]; exact Iff.rfl) id h.curTid
  case h_9 tid =>
    -- the thread writes itself as the owner
    obtain ⟨rfl, rfl⟩ := Prod.mk.inj (Option.some.inj hs)
    have hholder := h.between.mpr trivial
    refine ⟨holder, ⟨hI.lock, ?_⟩, ⟨iff_of_true hholder trivial, False.elim, fun _ htid => by
      cases htid⟩, fun u hu => (hA u).other hu (.inr hholder) (.inr hholder)⟩
    exact (h.curTid tid rfl).imp id fun heq => ⟨t, hholder, heq⟩
  case h_10 =>
    obtain ⟨rfl, rfl⟩ := Prod.mk.inj (Option.some.inj hs)
    exact MutexKept.move hI hA (by rw [hpc]; exact Iff.rfl) id fun _ htid => by cases htid
  case h_11 =>
    obtain ⟨rfl, rfl⟩ := Prod.mk.inj (Option.some.inj hs)
    have hholder := h.between.mpr trivial
    exact ⟨holder, ⟨hI.lock, .inl rfl⟩, ⟨iff_of_true hholder trivial, fun _ => rfl, fun _ htid => by
      cases htid⟩, fun u hu => (hA u).other hu (.inr hholder) (.inr hholder)⟩
  case h_12 =>
    -- the mutex is free again
    obtain ⟨rfl, rfl⟩ := Prod.mk.inj (Option.some.inj hs)
    have hholder := h.between.mpr trivial
    exact ⟨none, ⟨rfl, .inl (h.anonymous trivial)⟩, ⟨iff_of_false (fun hn => by cases hn) id,
      False.elim, fun _ htid => by cases htid⟩,
      fun u hu => (hA u).other hu (.inr hholder) (.inl rfl)⟩
  case h_13 => cases hs

/-- In every run the threads are annotated. -/
lemma mutexAnnotated {r : MutexT × (ℕ → MutexPc)} (h : mutexThreads.machine.Reachable r) :
    Threads.Annotated MutexInv MutexAssert r := by
  refine Threads.annotated_of_reach ?_ ?_ h
  · rintro _ rfl
    exact ⟨none, ⟨rfl, .inl rfl⟩, fun t => ⟨iff_of_false (fun hn => by cases hn) id, False.elim,
      fun _ htid => by cases htid⟩⟩
  · intro s pc holder t a s' p' hI hA _ hs
    exact mutexStep_kept hI hA hs

/-- A spinning thread goes on to yield to the owner that it reads. -/
lemma mutexStep_yield {curTid target : ℤ}
    (h : mutexStep s t p .run = some (s', .yield curTid target)) : target = s.owner := by
  unfold mutexStep at h
  split at h
  case h_5 =>
    obtain ⟨-, heq⟩ := Prod.mk.inj (Option.some.inj h)
    exact (MutexPc.yield.inj heq).2.symm
  all_goals
    first
    | (split_ifs at h <;> simp at h)
    | simp at h

/-- **The kernel mutex** in every run: at most one thread is between the exchanges that lock
and unlock it, and the owner, and what a spinning thread reads as the owner, is nobody or that
thread. -/
theorem mutexSafe_of_reachable {r : MutexT × (ℕ → MutexPc)}
    (h : mutexThreads.machine.Reachable r) : MutexSafe r.1 r.2 := by
  obtain ⟨holder, hI, hA⟩ := mutexAnnotated h
  have howner : NamesHolder r.2 r.1.owner := by
    refine hI.owner.imp id ?_
    rintro ⟨t, ht, heq⟩
    exact ⟨t, (hA t).between.mp ht, heq⟩
  refine ⟨fun t u ht hu => ?_, howner, fun t curTid target s' hs => ?_⟩
  · have ht' := (hA t).between.mpr ht
    rw [(hA u).between.mpr hu] at ht'
    exact (Option.some.inj ht').symm
  · rw [mutexStep_yield hs]
    exact howner

/-! ### Runs of two threads -/

/-- Thread 0 has the mutex, and thread 1 has read the owner. -/
def spinRun : List (ℕ × MutexAct) :=
  [(0, .lock), (0, .run), (0, .run), (0, .run), (1, .lock), (1, .run), (1, .run), (1, .run)]

/-- Thread 1 is about to yield to thread 0, which has the mutex. -/
theorem mutexSafe_of_reachable_spinRun :
    ∃ r, Machine.replay mutexThreads.next (mutexInit, fun _ => .out) spinRun = some r ∧
      r.1 = ⟨0, 0⟩ ∧ r.2 1 = .yield 1 0 ∧ MutexSafe r.1 r.2 := by
  have hrun : (Machine.replay mutexThreads.next (mutexInit, fun _ => .out) spinRun).map
      (fun r => (r.1, r.2 1)) = some (⟨0, 0⟩, .yield 1 0) := by decide +kernel
  rw [Option.map_eq_some_iff] at hrun
  obtain ⟨r, hr, heq⟩ := hrun
  obtain ⟨hmutex, hpc⟩ := Prod.mk.inj heq
  refine ⟨r, hr, hmutex, hpc, mutexSafe_of_reachable ?_⟩
  exact Machine.reach_of_replay (fun _ _ _ h => h) spinRun (fun _ _ _ => trivial) (.init rfl) hr

/-- Then thread 0 unlocks the mutex. -/
def lateRun : List (ℕ × MutexAct) := spinRun ++ [(0, .unlock), (0, .run), (0, .run)]

/-- Thread 1 is still about to yield to thread 0, and nobody has the mutex. -/
theorem not_currentTargets_lateRun :
    ¬ ∀ r, mutexThreads.machine.Reachable r → CurrentTargets r.2 := by
  intro hall
  have hrun : (Machine.replay mutexThreads.next (mutexInit, fun _ => .out) lateRun).map
      (fun r => (r.1, r.2 0, r.2 1)) = some (⟨1, -1⟩, .out, .yield 1 0) := by decide +kernel
  rw [Option.map_eq_some_iff] at hrun
  obtain ⟨r, hr, heq⟩ := hrun
  obtain ⟨-, heq⟩ := Prod.mk.inj heq
  obtain ⟨h0, h1⟩ := Prod.mk.inj heq
  have hreach : mutexThreads.machine.Reachable r :=
    Machine.reach_of_replay (fun _ _ _ h => h) lateRun (fun _ _ _ => trivial) (.init rfl) hr
  rcases hall r hreach 1 1 0 h1 with htarget | ⟨t, hbetween, htarget⟩
  · cases htarget
  · obtain rfl : t = 0 := by omega
    rw [h0] at hbetween
    exact hbetween

end ShrekOS
