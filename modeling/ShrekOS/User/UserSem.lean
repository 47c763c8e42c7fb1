/-
The semaphores of `user/libthread/sem.c` with every step of their own and of their mutex.

* `UserMutexPc`, `userMutexStep`: the steps of `user/libthread/mutex.c`, and `userMutex`: it is a
  lock;
* `userQueue`: the list of the library as a queue of waiters;
* `userSem_safe`: **the semaphores of the library are safe** in every run.

A `thread_t` is a record with a tid and a `reject`, as in the kernel.
-/
import ShrekOS.Locks.SemSteps
import ShrekOS.User.UserList

namespace ShrekOS

open Kit

/-- Where a thread is: outside, before the `xchng` of `mutex_lock`, in `yield(-1)`, before the
write to `lock`, with the mutex, or before the `xchng` of `mutex_unlock`. -/
inductive UserMutexPc where
  | out
  | spin
  | yield
  | store
  | inside
  | unlock
  deriving DecidableEq

/-- The calls of a thread, and its next step. -/
inductive UserMutexAct where
  | lock
  | unlock
  | run

/-- The steps of a thread on the `lock` of a mutex; it unlocks a mutex that it has. -/
def userMutexStep (lock : ℤ) (_ : ℕ) : UserMutexPc → UserMutexAct → Option (ℤ × UserMutexPc)
  | .out, .lock => some (lock, .spin)
  -- `xchng(&mp->lock, 0)`
  | .spin, .run => some (0, if lock = 0 then .yield else .store)
  | .yield, .run => some (lock, .spin)
  | .store, .run => some (0, .inside)
  | .inside, .unlock => some (lock, .unlock)
  | .unlock, .run => some (1, .out)
  | _, _ => none

/-- The thread is between its successful `xchng` in `mutex_lock` and that of `mutex_unlock`. -/
def UserMutexPc.Between : UserMutexPc → Prop
  | .store | .inside | .unlock => True
  | _ => False

/-- The invariant of a mutex that the given thread has. -/
def UserMutexInv (lock : ℤ) (holder : Option ℕ) : Prop :=
  lock = if holder = none then 1 else 0

/-- The assertion of a thread. -/
def UserMutexAssert (holder : Option ℕ) (t : ℕ) (p : UserMutexPc) : Prop :=
  holder = some t ↔ p.Between

section

variable {lock lock' : ℤ} {holder : Option ℕ} {t : ℕ} {pc : ℕ → UserMutexPc} {p' : UserMutexPc}
  {a : UserMutexAct}

/-- A thread takes a free mutex, or gives it back. -/
lemma userMutexAssert_other {holder' : Option ℕ} {u : ℕ} {p : UserMutexPc}
    (h : UserMutexAssert holder u p) (hu : u ≠ t) (ht : holder = none ∨ holder = some t)
    (ht' : holder' = none ∨ holder' = some t) : UserMutexAssert holder' u p := by
  have hne : ∀ o : Option ℕ, o = none ∨ o = some t → o ≠ some u := by
    rintro o (rfl | rfl)
    · exact (Option.some_ne_none u).symm
    · exact fun heq => hu (Option.some.inj heq).symm
  exact iff_of_false (hne _ ht') fun hp => hne _ ht (h.mpr hp)

/-- **Every step keeps the invariant and the assertions.** -/
theorem userMutexStep_kept (hI : UserMutexInv lock holder)
    (hA : ∀ u, UserMutexAssert holder u (pc u))
    (hs : userMutexStep lock t (pc t) a = some (lock', p')) :
    ∃ holder', UserMutexInv lock' holder' ∧ UserMutexAssert holder' t p' ∧
      ∀ u, u ≠ t → UserMutexAssert holder' u (pc u) := by
  have h := hA t
  generalize hpc : pc t = p at hs h
  unfold userMutexStep at hs
  split at hs
  case h_1 | h_3 | h_5 =>
    obtain ⟨rfl, rfl⟩ := Prod.mk.inj (Option.some.inj hs)
    exact ⟨holder, hI, h, fun u _ => hA u⟩
  case h_2 =>
    obtain ⟨rfl, rfl⟩ := Prod.mk.inj (Option.some.inj hs)
    rw [UserMutexInv] at hI
    by_cases hnone : holder = none
    · -- the mutex was free
      subst hnone
      rw [if_pos rfl] at hI
      rw [hI, if_neg one_ne_zero]
      exact ⟨some t, rfl, iff_of_true rfl trivial,
        fun u hu => userMutexAssert_other (hA u) hu (.inl rfl) (.inr rfl)⟩
    · rw [if_neg hnone] at hI
      rw [if_pos hI]
      exact ⟨holder, (if_neg hnone).symm, h, fun u _ => hA u⟩
  case h_4 =>
    obtain ⟨rfl, rfl⟩ := Prod.mk.inj (Option.some.inj hs)
    obtain rfl := h.mpr trivial
    exact ⟨some t, rfl, iff_of_true rfl trivial, fun u _ => hA u⟩
  case h_6 =>
    obtain ⟨rfl, rfl⟩ := Prod.mk.inj (Option.some.inj hs)
    obtain rfl := h.mpr trivial
    exact ⟨none, rfl, iff_of_false (Option.some_ne_none t).symm id,
      fun u hu => userMutexAssert_other (hA u) hu (.inr rfl) (.inl rfl)⟩
  case h_7 => cases hs

end

/-- `user/libthread/mutex.c`. -/
def userMutex : Lock ℤ UserMutexPc UserMutexAct where
  init lock := lock = 1
  step := userMutexStep
  out := .out
  inside := .inside
  Between := UserMutexPc.Between
  Inv := UserMutexInv
  Assert _ := UserMutexAssert
  between_inside := trivial
  inv_init := by
    rintro _ rfl
    exact ⟨none, rfl, fun t => iff_of_false (Option.some_ne_none t).symm id⟩
  between _ _ _ _ h := h
  kept _ _ _ _ _ _ _ hI hA hs := userMutexStep_kept hI hA hs

/-- `user/libthread/ll.c`: `malloc` answers with an address that is not in use. -/
def userQueue : SemQueue UserLl where
  init := UserLl.llInit fun _ => none
  enq n v q :=
    if q.nodes n = none then
      match UserLl.llAdd v n q with
      | (.ok _, q') => some q'
      | (.error _, _) => none
    else none
  deq q :=
    match UserLl.llDeq q with
    | (.ok r, q') => some (r.2, q')
    | (.error _, _) => none
  Holds := UserLl.Stores
  init_holds := UserLl.stores_llInit _
  enq_holds q l n v q' h hq := by
    obtain ⟨ns, hchain⟩ := h
    split_ifs at hq with hfree
    have hspec : Cmd.wp (UserLl.llAdd v n) _ (fun _ _ => False) q := UserLl.llAdd_spec hchain hfree
    unfold Cmd.wp at hspec
    split at hq
    next hrun =>
      rw [hrun] at hspec
      obtain rfl := Option.some.inj hq
      exact ⟨_, hspec.2⟩
    next => cases hq
  deq_holds q v l h := by
    obtain ⟨ns, hchain⟩ := h
    have hspec := UserLl.llDeq_spec (E := fun _ _ => False) hchain
    unfold Cmd.wp at hspec
    rcases hrun : UserLl.llDeq q with ⟨_ | r, q'⟩
    · rw [hrun] at hspec
      exact hspec.elim
    · rw [hrun] at hspec
      obtain ⟨rfl, hstores⟩ := hspec
      exact ⟨q', rfl, hstores⟩

/-- **The semaphores of the thread library** are safe in every run, with the steps of their mutex
and of all sections interleaved. -/
theorem userSem_safe {c : ℕ} {s : (ℤ × SemData UserLl) × (ℕ → UserMutexPc × SemPlace)}
    (h : (semThreads userMutex userQueue c).machine.Reachable s) :
    SemSafe userQueue c s.1.2 fun t => (s.2 t).2 :=
  semSafe_of_reachable h

/-- Thread 0 takes the only resource while thread 1 comes for it too, and spins; thread 1 is
queued, and thread 0 signals. -/
def userSemRun : List (ℕ × (UserMutexAct ⊕ SemStepAct)) :=
  [(0, .inr .wait), (0, .inl .lock), (0, .inl .run), (1, .inr .wait), (1, .inl .lock),
    (1, .inl .run), (0, .inl .run), (0, .inr .run), (0, .inr .run), (1, .inl .run),
    (0, .inl .unlock), (0, .inl .run), (1, .inl .run), (1, .inl .run), (1, .inr .run),
    (1, .inr .run), (1, .inr .run), (1, .inr (.node 5)), (1, .inl .unlock), (1, .inl .run),
    (0, .inr .signal), (0, .inl .lock), (0, .inl .run), (0, .inl .run), (0, .inr .run),
    (0, .inr .run), (0, .inr .run)]

/-- Both threads are outside. -/
def userSemStart : (ℤ × SemData UserLl) × (ℕ → UserMutexPc × SemPlace) :=
  ((1, semDataInit userQueue 1 (fun _ => ⟨0, 0⟩) fun _ => false), fun _ => (.out, .out))

/-- Thread 1 tests its record, and thread 0 is about to reject it. -/
theorem userSem_safe_userSemRun :
    ∃ s, Machine.replay (semThreads userMutex userQueue 1).next userSemStart userSemRun = some s ∧
      (s.2 0).2 = .reject 1 ∧ (s.2 1).2 = .look ∧ s.1.2.admitted = 2 ∧
      SemSafe userQueue 1 s.1.2 fun t => (s.2 t).2 := by
  have hrun : (Machine.replay (semThreads userMutex userQueue 1).next userSemStart userSemRun).map
      (fun s => ((s.2 0).2, (s.2 1).2, s.1.2.admitted)) = some (.reject 1, .look, 2) := by
    decide +kernel
  rw [Option.map_eq_some_iff] at hrun
  obtain ⟨s, hs, heq⟩ := hrun
  obtain ⟨h0, heq⟩ := Prod.mk.inj heq
  obtain ⟨h1, hadmitted⟩ := Prod.mk.inj heq
  have hinit : (semThreads userMutex userQueue 1).machine.init userSemStart :=
    ⟨rfl, ⟨_, _, rfl⟩, rfl⟩
  refine ⟨s, hs, h0, h1, hadmitted, userSem_safe ?_⟩
  exact Machine.reach_of_replay (fun _ _ _ h => h) userSemRun (fun _ _ _ => trivial)
    (.init hinit) hs

end ShrekOS
