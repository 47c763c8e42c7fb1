/-
The calls of the thread library run one at a time: `thr_init`, `thr_create`, `thr_exit` and
`thr_join` in `user/libthread/thread.c`, from the first statement to the return.

* `ThrFault`, `ThrM`, `CallAnswers`: how a call ends, and what the kernel and `malloc` answer it;
* `thrInit`, `thrCreate`, `thrExit`, `thrJoin`: the calls;
* `ThrLib.Quiet`, `Undone`: the states in which no lock is held, and what a failed call should
  leave;
* `thrCreate_fails`: **a failed `thr_create` that found no dead slot is undone**, unless an
  allocation fails: then it panics. `thrCreate_waits`: one that has recycled a slot waits for
  the mutex that it holds. `thrCreate_undone_iff`: **no other failed call is undone**.

The state is the one of `thrLib`, whose threads take the same calls step by step.
-/
import ShrekOS.Lib.Cmd
import ShrekOS.Mem.FrameManager
import ShrekOS.User.ThreadMoves

namespace ShrekOS

open Kit Kit.Cmd

/-- A call that is run alone may wait for what nobody does, and it may panic. -/
inductive ThrFault where
  | waits
  | panics

/-- The calls of the library. -/
abbrev ThrM (α : Type) : Type := Cmd ThrFault ThrLib α

/-- What one call is answered: the result of `new_pages` for a base and a length, the tid from
`thread_fork`, what is in the fields of the `thread_t` from `malloc` that `add_to_pool_s` does
not set, and whether `ll_add` finds memory for its node. -/
structure CallAnswers where
  newPages : BitVec 32 → BitVec 32 → ℤ
  threadFork : ℤ
  malloc : Option (Bool × ℤ)
  llAdd : Bool

/-- The caller waits until a lock is free: alone, for ever. -/
def takes (lock : ThrLib → Option ThrLib) : ThrM Unit := fun s =>
  match lock s with
  | some s' => (.ok (), s')
  | none => (.error .waits, s)

namespace ThrLib

/-- `ll_find` in the thread pool. -/
def findSlot (s : ThrLib) (p : ThreadT → Bool) : Option ℕ :=
  (List.range s.size).find? fun k => p (s.threadPool k)

/-- The slot of a dead thread. -/
def findDead (s : ThrLib) : Option ℕ := s.findSlot fun c => decide (c.status = .dead)

/-- `cond_signal(&(thr->join_cv))`. -/
def condSignal (s : ThrLib) (k : ℕ) : ThrLib :=
  match (s.threadPool k).joinCv with
  | [] => s
  | w :: q =>
      { s.setThread k { s.threadPool k with joinCv := q } with
        reject := Function.update s.reject w true
        waiting := Function.update s.waiting w false }

/-- `cond_wait(&(thr->join_cv), &(thr->m))`, up to where the caller has been descheduled. -/
def condWait (s : ThrLib) (t k : ℕ) : ThrLib :=
  { s.setThread k { s.threadPool k with joinCv := (s.threadPool k).joinCv ++ [t], m := none } with
    reject := Function.update s.reject t false
    waiting := Function.update s.waiting t true }

/-- `thread_fork` has made a thread with the stack. -/
def forked (s : ThrLib) (child : ℕ) (esp : BitVec 32) : ThrLib :=
  { s with tids := child :: s.tids, top := Function.update s.top child esp }

end ThrLib

/-- `new_thr_page`. -/
def newThrPage (ans : CallAnswers) (top len : BitVec 32) : ThrM ℤ := do
  let bottom ← gets ThrLib.stackBottom
  if top - len < bottom then
    if ans.newPages (bottom - len) len < 0 then pure (ans.newPages (bottom - len) len)
    else do
      modify fun s => { s with stackBottom := bottom - len }
      pure 0
  else pure 0

/-- `add_to_pool_s`. -/
def addToPoolS (ans : CallAnswers) (kTid : ℤ) (stackTop : BitVec 32) : ThrM ℤ :=
  match ans.malloc with
  | none => pure (-1)
  | some c => do
      takes ThrLib.rwlockWrite
      if ans.llAdd then do
        modify fun s =>
          { s.setThread s.size ⟨c.1, kTid, .alive, c.2, [], none, stackTop⟩ with
            size := s.size + 1 }
        modify ThrLib.rwlockUnlock
        pure 0
      else do
        modify ThrLib.rwlockUnlock
        pure (-1)

/-- `thr_init`, called by the thread `main` with the stack pointer `esp`. The nodes beyond the
size of the pool are not there yet. -/
def thrInit (ans : CallAnswers) (main : ℕ) (size esp : BitVec 32) : ThrM ℤ :=
  if size = 0 then pure (-1)
  else do
    let stackSize := ((size - 1) / 4096 + 1) * 4096
    let top := esp - esp % 4096
    modify fun s =>
      { s with threadStackSize := stackSize, parentStackTop := top,
               top := Function.update s.top main top }
    let ret ← newThrPage ans top stackSize
    if ret < 0 then pure (-1)
    else do
      -- `ll_init` and `rwlock_init`
      modify fun s =>
        { s with size := 0, threadPool := fun _ => ⟨false, -1, .alive, 0, [], none, 0⟩,
                 readers := 0, writerLocked := false }
      let ret ← addToPoolS ans main top
      if ret < 0 then pure (-1) else pure 0

/-- The loop in which `thr_create` looks for a dead slot, for a number of rounds: the slot, if
there is one, and the new stack pointer. -/
def searchDead (t : ℕ) : ℕ → ThrM (Option ℕ × BitVec 32)
  | 0 => fault .waits
  | n + 1 => do
      let s ← get
      match s.findDead with
      | none => pure (none, s.newEsp s.size)
      | some k => do
          takes fun s => s.mutexLock t k
          let c ← gets fun s => s.threadPool k
          if c.status = .dead then do
            modify fun s => s.setThread k { s.threadPool k with joinCv := [], status := .alive }
            modify fun s => s.mutexUnlock k
            pure (some k, c.stackTop)
          else do
            modify fun s => s.mutexUnlock k
            searchDead t n

/-- `thr_create` from the call of `thread_fork` on, with the slot that it recycles, if any. -/
def forkThread (ans : CallAnswers) (t : ℕ) (found : Option ℕ) (newEsp : BitVec 32) : ThrM ℤ :=
  if ans.threadFork < 0 then
    match found with
    | none => pure (-1)
    | some k => do
        takes fun s => s.mutexLock t k
        modify fun s => s.setThread k { s.threadPool k with status := .dead }
        takes fun s => s.mutexLock t k
        pure (-1)
  else do
    modify fun s => s.forked ans.threadFork.toNat newEsp
    match found with
    | none => do
        let ret ← addToPoolS ans ans.threadFork newEsp
        if ret < 0 then fault .panics else pure ans.threadFork
    | some k => do
        takes fun s => s.mutexLock t k
        modify fun s => s.setThread k { s.threadPool k with kTid := ans.threadFork }
        modify fun s => s.mutexUnlock k
        pure ans.threadFork

/-- `thr_create` after the loop: a new slot may need a page. -/
def startThread (ans : CallAnswers) (t : ℕ) (found : Option ℕ) (newEsp : BitVec 32) : ThrM ℤ :=
  match found with
  | none => do
      let ret ← newThrPage ans newEsp (← gets ThrLib.threadStackSize)
      if ret < 0 then pure (-1) else forkThread ans t none newEsp
  | some k => forkThread ans t (some k) newEsp

/-- `thr_create`. One round of the loop is enough for a thread that runs alone
(`searchDead_succ`). -/
def thrCreate (ans : CallAnswers) (t : ℕ) : ThrM ℤ := do
  takes ThrLib.rwlockRead
  let x ← searchDead t 1
  modify ThrLib.rwlockUnlock
  startThread ans t x.1 x.2

/-- `thr_exit`, up to the call of `vanish`. The caller looks for its slot until somebody adds
it: alone, it finds it at once or never. -/
def thrExit (t : ℕ) (status : ℤ) : ThrM ℤ := do
  modify fun s => { s with exited := Function.update s.exited t (some status) }
  takes ThrLib.rwlockRead
  match (← get).findSlot fun c => decide (c.kTid = t) with
  | none => fault .waits
  | some k => do
      takes fun s => s.mutexLock t k
      modify fun s => s.setThread k { s.threadPool k with status := .zombie }
      modify fun s => s.setThread k { s.threadPool k with exitStatus := status }
      modify fun s => s.condSignal k
      modify fun s => s.mutexUnlock k
      modify ThrLib.rwlockUnlock
      pure 0

/-- The loop of `thr_join` and what follows it, with the mutex held. -/
def joinHeld (t : ℕ) (kTid : ℤ) (k : ℕ) : ThrM ℤ := do
  let c ← gets fun s => s.threadPool k
  if c.status = .alive then
    if c.pendingJoin then do
      modify fun s => s.mutexUnlock k
      pure (-1)
    else do
      modify fun s => s.setThread k { s.threadPool k with pendingJoin := true }
      modify fun s => s.condWait t k
      fault .waits
  else do
    modify fun s => s.setThread k { s.threadPool k with pendingJoin := false }
    -- `reap_zombie`
    modify fun s => s.setThread k { s.threadPool k with status := .dead }
    modify fun s => s.setThread k { s.threadPool k with kTid := -1 }
    modify fun s => { s.mutexUnlock k with joined := (kTid, c.exitStatus) :: s.joined }
    pure 0

/-- `thr_join`. -/
def thrJoin (t : ℕ) (kTid : ℤ) : ThrM ℤ := do
  takes ThrLib.rwlockRead
  match (← get).findSlot fun c => decide (c.kTid = kTid) with
  | none => do
      modify ThrLib.rwlockUnlock
      pure (-1)
  | some k => do
      modify ThrLib.rwlockUnlock
      takes fun s => s.mutexLock t k
      let c ← gets fun s => s.threadPool k
      if c.status = .dead then do
        modify fun s => s.mutexUnlock k
        pure (-1)
      else joinHeld t kTid k

/-- A join that has waited goes on when it has been signalled. -/
def thrRejoin (t : ℕ) (kTid : ℤ) (k : ℕ) : ThrM ℤ := do
  takes fun s => if s.reject t then some s else none
  takes fun s => s.mutexLock t k
  joinHeld t kTid k

variable {s s' : ThrLib} {ans : CallAnswers} {t k : ℕ} {esp len : BitVec 32}
  {lock : ThrLib → Option ThrLib} {α : Type} {Q : Unit → ThrLib → Prop}
  {E : ThrFault → ThrLib → Prop}

/-! ### Locks -/

lemma wp_takes (h : lock s = some s') : wp (takes lock) Q E s ↔ Q () s' := by
  unfold wp takes
  rw [h]

lemma takes_run (h : lock s = some s') : takes lock s = (.ok (), s') := by
  unfold takes
  rw [h]

lemma takes_held (h : lock s = none) : takes lock s = (.error .waits, s) := by
  unfold takes
  rw [h]

lemma wp_takes_none (h : lock s = none) : wp (takes lock) Q E s ↔ E .waits s := by
  unfold wp takes
  rw [h]

/-- No lock of the thread pool is held by any thread. -/
structure ThrLib.Quiet (s : ThrLib) : Prop where
  readers : s.readers = 0
  writer : s.writerLocked = false
  mutex : ∀ k < s.size, (s.threadPool k).m = none

/-- The pool is locked as a reader. -/
def ThrLib.reading (s : ThrLib) : ThrLib := { s with readers := s.readers + 1 }

lemma rwlockRead_free (h : s.writerLocked = false) : s.rwlockRead = some s.reading := by
  unfold ThrLib.rwlockRead
  rw [if_neg (by rw [h]; exact Bool.false_ne_true)]
  rfl

lemma rwlockWrite_free (h : s.writerLocked = false) (h₀ : s.readers = 0) :
    s.rwlockWrite = some { s with writerLocked := true } := by
  unfold ThrLib.rwlockWrite
  rw [if_neg]
  rw [h, h₀]
  decide

/-- A reader leaves the lock as it was. -/
lemma rwlockUnlock_reading (h : s.writerLocked = false) : s.reading.rwlockUnlock = s := by
  unfold ThrLib.rwlockUnlock
  rw [if_neg (by change ¬ s.writerLocked = true; rw [h]; exact Bool.false_ne_true)]
  rfl

lemma mutexLock_free (h : (s.threadPool k).m = none) :
    s.mutexLock t k = some (s.setThread k { s.threadPool k with m := some t }) := if_pos h

lemma mutexLock_held (h : (s.threadPool k).m ≠ none) : s.mutexLock t k = none := if_neg h

@[simp] lemma setThread_setThread (s : ThrLib) (k : ℕ) (c d : ThreadT) :
    (s.setThread k c).setThread k d = s.setThread k d := by
  unfold ThrLib.setThread
  rw [Function.update_idem]

/-! ### The loop of `thr_create` -/

/-- The slot that `ll_find` returns. -/
lemma findDead_some (h : s.findDead = some k) :
    k < s.size ∧ (s.threadPool k).status = .dead := by
  have hmem := List.mem_of_find?_eq_some h
  have hdead := List.find?_some h
  exact ⟨List.mem_range.mp hmem, of_decide_eq_true hdead⟩

lemma findDead_eq_none : s.findDead = none ↔ ∀ k < s.size, (s.threadPool k).status ≠ .dead := by
  unfold ThrLib.findDead ThrLib.findSlot
  rw [List.find?_eq_none]
  simp only [List.mem_range, decide_eq_true_eq, ne_eq]

/-- The slot is resurrected. -/
def ThrLib.resurrect (s : ThrLib) (k : ℕ) : ThrLib :=
  s.setThread k { s.threadPool k with joinCv := [], status := .alive }

lemma searchDead_none (h : s.findDead = none) (n : ℕ) :
    searchDead t (n + 1) s = (.ok (none, s.newEsp s.size), s) := by
  rw [searchDead, run_bind (rfl : get s = (.ok s, s)), h]
  rfl

lemma searchDead_some (h : s.findDead = some k) (hm : (s.threadPool k).m = none) (n : ℕ) :
    searchDead t (n + 1) s = (.ok (some k, (s.threadPool k).stackTop), s.resurrect k) := by
  obtain ⟨s₁, hs₁⟩ : ∃ s₁, s₁ = s.setThread k { s.threadPool k with m := some t } := ⟨_, rfl⟩
  have hlock : s.mutexLock t k = some s₁ := hs₁ ▸ mutexLock_free hm
  have hslot : s₁.threadPool k = { s.threadPool k with m := some t } := by
    rw [hs₁, setThread_self]
  have hend : (s₁.resurrect k).mutexUnlock k = s.resurrect k := by
    unfold ThrLib.mutexUnlock ThrLib.resurrect
    rw [setThread_self, setThread_setThread, hslot, hs₁, setThread_setThread, ← hm]
  have hread : (gets fun s => s.threadPool k : ThrM ThreadT) s₁ = (.ok (s₁.threadPool k), s₁) := rfl
  rw [searchDead, run_bind (rfl : get s = (.ok s, s)), h]
  dsimp only
  have hdead : (s₁.threadPool k).status = .dead := hslot ▸ (findDead_some h).2
  rw [run_bind (takes_run hlock), run_bind hread, if_pos hdead, ← hend, hslot]
  rfl

lemma searchDead_held (h : s.findDead = some k) (hm : (s.threadPool k).m ≠ none) (n : ℕ) :
    searchDead t (n + 1) s = (.error .waits, s) := by
  have hlock : takes (fun s => s.mutexLock t k) s = (.error .waits, s) :=
    takes_held (mutexLock_held hm)
  rw [searchDead, run_bind (rfl : get s = (.ok s, s)), h]
  change seq _ _ s = _
  rw [seq, hlock]

/-- **One round is enough** when nobody else runs. -/
lemma searchDead_succ (t n : ℕ) : searchDead t (n + 1) = searchDead t 1 := by
  funext s
  rcases h : s.findDead with _ | k
  · rw [searchDead_none h, searchDead_none h]
  · by_cases hm : (s.threadPool k).m = none
    · rw [searchDead_some h hm, searchDead_some h hm]
    · rw [searchDead_held h hm, searchDead_held h hm]

/-- A thread that runs alone comes to the statements after the loop. -/
lemma thrCreate_fresh (hw : s.writerLocked = false) (h : s.findDead = none) :
    thrCreate ans t s = startThread ans t none (s.newEsp s.size) s := by
  have hfind : s.reading.findDead = none := h
  rw [thrCreate, run_bind (takes_run (rwlockRead_free hw)), run_bind (searchDead_none hfind 0)]
  have hunlock : (modify ThrLib.rwlockUnlock : ThrM Unit) s.reading = (.ok (), s) := by
    change (_, s.reading.rwlockUnlock) = _
    rw [rwlockUnlock_reading hw]
  rw [run_bind hunlock]
  rfl

lemma thrCreate_recycled (hw : s.writerLocked = false) (h : s.findDead = some k)
    (hm : (s.threadPool k).m = none) :
    thrCreate ans t s =
      startThread ans t (some k) (s.threadPool k).stackTop (s.resurrect k) := by
  have hfind : s.reading.findDead = some k := h
  have hfree : (s.reading.threadPool k).m = none := hm
  rw [thrCreate, run_bind (takes_run (rwlockRead_free hw)),
    run_bind (searchDead_some hfind hfree 0)]
  have hunlock : (modify ThrLib.rwlockUnlock : ThrM Unit) (s.reading.resurrect k) =
      (.ok (), s.resurrect k) := by
    change (_, (s.resurrect k).reading.rwlockUnlock) = _
    rw [rwlockUnlock_reading (show (s.resurrect k).writerLocked = false from hw)]
  rw [run_bind hunlock]
  rfl

/-! ### Failures -/

/-- `new_pages` is asked for the stack, and fails. -/
def ThrLib.PagesFail (s : ThrLib) (ans : CallAnswers) (esp : BitVec 32) : Prop :=
  s.NeedsPage esp ∧ ans.newPages (s.stackBottom - s.threadStackSize) s.threadStackSize < 0

/-- The stack has been allocated where it is needed. -/
def ThrLib.paged (s : ThrLib) (esp : BitVec 32) : ThrLib :=
  if s.NeedsPage esp then { s with stackBottom := s.stackBottom - s.threadStackSize } else s

/-- An allocation of `add_to_pool_s` fails. -/
def CallAnswers.AllocFails (ans : CallAnswers) : Prop := ans.malloc = none ∨ ans.llAdd = false

/-- Something fails inside `thr_create`: `new_pages` or an allocation for a new slot, or
`thread_fork`. -/
def CreateFails (s : ThrLib) (ans : CallAnswers) : Prop :=
  (s.findDead = none ∧ s.PagesFail ans (s.newEsp s.size)) ∨ ans.threadFork < 0 ∨
    (s.findDead = none ∧ ans.AllocFails)

/-- The locks are held by the same threads. -/
structure SameLocks (s s' : ThrLib) : Prop where
  readers : s'.readers = s.readers
  writer : s'.writerLocked = s.writerLocked
  mutex : ∀ k, (s'.threadPool k).m = (s.threadPool k).m

/-- **A failed call is undone**: it returns a negative code, the locks are as they were, and
every slot has the status that it had before. -/
def Undone (s : ThrLib) (call : ThrM ℤ) : Prop :=
  wp call (fun code s' => code < 0 ∧ SameLocks s s' ∧ s'.size = s.size ∧
    ∀ k < s.size, (s'.threadPool k).status = (s.threadPool k).status) (fun _ _ => False) s

/-- The call panics. -/
def Panics (s : ThrLib) (call : ThrM ℤ) : Prop :=
  wp call (fun _ _ => False) (fun e _ => e = .panics) s

lemma wp_newThrPage {Q : ℤ → ThrLib → Prop} (h₁ : s.PagesFail ans esp → ∀ r < 0, Q r s)
    (h₂ : ¬ s.PagesFail ans esp → Q 0 (s.paged esp)) :
    wp (newThrPage ans esp s.threadStackSize) Q E s := by
  unfold ThrLib.paged at h₂
  simp only [newThrPage, wp_bind, wp_gets, wp_ite, wp_modify, wp_pure]
  refine ⟨fun hneeds => ⟨fun hfail => h₁ ⟨hneeds, hfail⟩ _ hfail, fun hpages => ?_⟩,
    fun hroom => ?_⟩
  · have := h₂ fun h => hpages h.2
    rwa [if_pos (show s.NeedsPage esp from hneeds)] at this
  · have := h₂ fun h => hroom h.1
    rwa [if_neg (show ¬ s.NeedsPage esp from hroom)] at this

lemma wp_startThread {Q : ℤ → ThrLib → Prop} (h₁ : s.PagesFail ans esp → Q (-1) s)
    (h₂ : ¬ s.PagesFail ans esp → wp (forkThread ans t none esp) Q E (s.paged esp)) :
    wp (startThread ans t none esp) Q E s := by
  rw [startThread, wp_bind, wp_gets, wp_bind]
  refine wp_newThrPage (fun hfail r hr => ?_) fun hpages => ?_
  · rw [if_pos hr]
    exact h₁ hfail
  · rw [if_neg (lt_irrefl 0)]
    exact h₂ hpages

lemma paged_sameLocks (s : ThrLib) (esp : BitVec 32) : SameLocks s (s.paged esp) := by
  unfold ThrLib.paged
  split_ifs <;> exact ⟨rfl, rfl, fun _ => rfl⟩

lemma paged_pool (s : ThrLib) (esp : BitVec 32) :
    (s.paged esp).threadPool = s.threadPool ∧ (s.paged esp).size = s.size := by
  unfold ThrLib.paged
  split_ifs <;> exact ⟨rfl, rfl⟩

/-- `add_to_pool_s` without memory. -/
lemma addToPoolS_fails (hw : s.writerLocked = false) (h₀ : s.readers = 0) (h : ans.AllocFails)
    (kTid : ℤ) :
    wp (addToPoolS ans kTid esp) (fun r s' => r < 0 ∧ s' = s) (fun _ _ => False) s := by
  unfold addToPoolS
  rcases hmalloc : ans.malloc with _ | c
  · exact ⟨by decide, rfl⟩
  · have hadd : ans.llAdd = false := h.resolve_left fun hnone => by
      rw [hmalloc] at hnone
      cases hnone
    dsimp only
    rw [wp_bind, wp_takes (rwlockWrite_free hw h₀), hadd, if_neg Bool.false_ne_true,
      wp_bind, wp_modify, wp_pure]
    refine ⟨by decide, ?_⟩
    unfold ThrLib.rwlockUnlock
    rw [if_pos rfl, ← hw]

/-- A new slot, when `new_pages` or `thread_fork` fails. -/
lemma startThread_undone (h : s.PagesFail ans esp ∨ ans.threadFork < 0) :
    Undone s (startThread ans t none esp) := by
  have hsame : SameLocks s s := ⟨rfl, rfl, fun _ => rfl⟩
  refine wp_startThread (fun _ => ⟨by decide, hsame, rfl, fun _ _ => rfl⟩) fun hpages => ?_
  obtain ⟨hpool, hsize⟩ := paged_pool s esp
  rw [forkThread, if_pos (h.resolve_left hpages)]
  refine ⟨by decide, paged_sameLocks s esp, hsize, fun k _ => ?_⟩
  rw [hpool]

/-- A new slot, when an allocation fails: the thread has been forked, and the library panics. -/
lemma startThread_panics (hw : s.writerLocked = false) (h₀ : s.readers = 0)
    (hpages : ¬ s.PagesFail ans esp) (hfork : 0 ≤ ans.threadFork)
    (halloc : ans.AllocFails) :
    Panics s (startThread ans t none esp) := by
  refine wp_startThread (fun h => absurd h hpages) fun _ => ?_
  have hsame := paged_sameLocks s esp
  obtain ⟨s₁, hs₁⟩ : ∃ s₁, s₁ = (s.paged esp).forked ans.threadFork.toNat esp := ⟨_, rfl⟩
  have hw₁ : s₁.writerLocked = false := hs₁ ▸ hsame.writer.trans hw
  have h₁ : s₁.readers = 0 := hs₁ ▸ hsame.readers.trans h₀
  rw [forkThread, if_neg (not_lt.mpr hfork), wp_bind, wp_modify, wp_bind, ← hs₁]
  refine wp_mono (addToPoolS_fails hw₁ h₁ halloc ans.threadFork) ?_ fun _ _ hno => hno.elim
  rintro r s' ⟨hr, -⟩
  rw [if_pos hr]
  rfl

/-- **A failed `thr_create` is undone** when it has found no dead slot and `new_pages` or
`thread_fork` fails; it panics when an allocation fails. -/
theorem thrCreate_fails (hw : s.writerLocked = false)
    (hnone : ∀ k < s.size, (s.threadPool k).status ≠ .dead) (ans : CallAnswers) (t : ℕ) :
    (s.PagesFail ans (s.newEsp s.size) ∨ ans.threadFork < 0 → Undone s (thrCreate ans t)) ∧
      (¬ s.PagesFail ans (s.newEsp s.size) → 0 ≤ ans.threadFork → ans.AllocFails →
        s.readers = 0 → Panics s (thrCreate ans t)) := by
  have hrun : thrCreate ans t s = startThread ans t none (s.newEsp s.size) s :=
    thrCreate_fresh hw (findDead_eq_none.mpr hnone)
  constructor
  · intro h
    unfold Undone wp
    rw [hrun]
    exact startThread_undone h
  · intro hpages hfork halloc h₀
    unfold Panics wp
    rw [hrun]
    exact startThread_panics hw h₀ hpages hfork halloc

/-- A recycled slot, when `thread_fork` fails: the caller waits for the mutex that it holds. -/
theorem thrCreate_waits (hw : s.writerLocked = false) (h : s.findDead = some k)
    (hm : (s.threadPool k).m = none) (hfork : ans.threadFork < 0) :
    wp (thrCreate ans t) (fun _ _ => False)
      (fun e s' => e = .waits ∧ (s'.threadPool k).m = some t) s := by
  have hfree : ((s.resurrect k).threadPool k).m = none := by
    rw [ThrLib.resurrect, setThread_self]
    exact hm
  unfold wp
  rw [thrCreate_recycled hw h hm]
  change wp (startThread ans t (some k) (s.threadPool k).stackTop) _ _ _
  rw [startThread, forkThread, if_pos hfork, wp_bind, wp_takes (mutexLock_free hfree), wp_bind,
    wp_modify, wp_bind, wp_takes_none]
  · refine ⟨rfl, ?_⟩
    rw [setThread_self, setThread_self]
  · refine mutexLock_held ?_
    rw [setThread_self, setThread_self]
    exact Option.some_ne_none t

/-- A call that never returns. -/
lemma not_undone_of_never {call : ThrM ℤ} (h : wp call (fun _ _ => False) (fun _ _ => True) s) :
    ¬ Undone s call := by
  intro hundone
  unfold Undone wp at hundone
  unfold wp at h
  rcases hcall : call s with ⟨e | r, s'⟩
  · rw [hcall] at hundone
    exact hundone
  · rw [hcall] at h
    exact h

/-- A failed allocation is never undone: `add_to_pool_s` waits for the readers of the pool, or its
caller panics. -/
lemma startThread_never (hpages : ¬ s.PagesFail ans esp) (hfork : 0 ≤ ans.threadFork)
    (halloc : ans.AllocFails) :
    wp (startThread ans t none esp) (fun _ _ => False) (fun _ _ => True) s := by
  refine wp_startThread (fun h => absurd h hpages) fun _ => ?_
  have hadd : ∀ s₁ : ThrLib, wp (addToPoolS ans ans.threadFork esp) (fun r _ => r < 0)
      (fun _ _ => True) s₁ := by
    intro s₁
    unfold addToPoolS
    rcases hmalloc : ans.malloc with _ | c
    · exact (by decide : (-1 : ℤ) < 0)
    · have hnode : ans.llAdd = false := halloc.resolve_left fun hnone => by
        rw [hmalloc] at hnone
        cases hnone
      dsimp only
      rw [wp_bind]
      rcases hlock : s₁.rwlockWrite with _ | s₂
      · exact (wp_takes_none hlock).mpr trivial
      · rw [wp_takes hlock, hnode, if_neg Bool.false_ne_true, wp_bind, wp_modify, wp_pure]
        decide
  rw [forkThread, if_neg (not_lt.mpr hfork), wp_bind, wp_modify, wp_bind]
  refine wp_imp (hadd _) fun r s' hr => ?_
  rw [if_pos hr]
  trivial

/-- **When a failed `thr_create` is undone**: exactly when the pool lock can be taken, no slot is
dead, and it is `new_pages` or `thread_fork` that fails. -/
theorem thrCreate_undone_iff (hfails : CreateFails s ans) (t : ℕ) :
    Undone s (thrCreate ans t) ↔ s.writerLocked = false ∧ s.findDead = none ∧
      (s.PagesFail ans (s.newEsp s.size) ∨ ans.threadFork < 0) := by
  constructor
  · intro hundone
    by_contra hcond
    refine not_undone_of_never ?_ hundone
    by_cases hw : s.writerLocked = false
    · rcases hdead : s.findDead with _ | k
      · -- a fresh slot: neither the page nor the fork has failed, so it is an allocation
        obtain ⟨hpages, hfork⟩ := not_or.mp fun h => hcond ⟨hw, hdead, h⟩
        have halloc : ans.AllocFails := by
          rcases hfails with ⟨-, h⟩ | h | ⟨-, h⟩
          · exact absurd h hpages
          · exact absurd h hfork
          · exact h
        unfold wp
        rw [thrCreate_fresh hw hdead]
        exact startThread_never hpages (not_lt.mp hfork) halloc
      · -- a recycled one: only the fork can fail
        have hfork : ans.threadFork < 0 := by
          rcases hfails with ⟨h, -⟩ | h | ⟨h, -⟩
          · exact absurd (h.symm.trans hdead) (Option.some_ne_none k).symm
          · exact h
          · exact absurd (h.symm.trans hdead) (Option.some_ne_none k).symm
        by_cases hm : (s.threadPool k).m = none
        · exact wp_mono (thrCreate_waits hw hdead hm hfork) (fun _ _ h => h) fun _ _ _ => trivial
        · have hread := takes_run (rwlockRead_free hw)
          unfold wp
          rw [thrCreate, run_bind hread]
          change wp (searchDead t 1 >>= _) _ _ s.reading
          rw [wp_bind]
          unfold wp
          rw [searchDead_held (show s.reading.findDead = some k from hdead) hm 0]
          trivial
    · have hlock : s.rwlockRead = none := by
        unfold ThrLib.rwlockRead
        exact if_pos (Bool.not_eq_false _ ▸ hw)
      rw [thrCreate, wp_bind, wp_takes_none hlock]
      trivial
  · rintro ⟨hw, hdead, h⟩
    exact (thrCreate_fails hw (findDead_eq_none.mp hdead) ans t).1 h

/-- A pool of two slots: the one of thread 0, and one with the given status. -/
def twoSlots (status : ThrStatus) : ThrLib where
  parentStackTop := 0xffff0000
  threadStackSize := 0x1000
  stackBottom := 0xfffee000
  threadPool k := ⟨false, if k = 0 then 0 else -1, if k = 0 then .alive else status, 0, [], none,
    0xffff0000 - BitVec.ofNat 32 k * 0x1000⟩
  size := 2
  readers := 0
  writerLocked := false
  reject _ := false
  waiting _ := false
  tids := [0]
  top _ := 0xffff0000
  exited _ := none
  joined := []

lemma twoSlots_quiet (status : ThrStatus) : (twoSlots status).Quiet := ⟨rfl, rfl, fun _ _ => rfl⟩

/-- Everything succeeds but for `thread_fork`. -/
def forkFails : CallAnswers := ⟨fun _ _ => 0, -1, some (false, 0), true⟩

/-- Everything succeeds but for `malloc`. -/
def mallocFails : CallAnswers := ⟨fun _ _ => 0, 1, none, true⟩

/-- No slot is dead, and a failed `thread_fork` is undone. -/
theorem thrCreate_undone_iff_twoSlots : CreateFails (twoSlots .zombie) forkFails ∧
    Undone (twoSlots .zombie) (thrCreate forkFails 0) := by
  have hnone : (twoSlots .zombie).findDead = none := by decide
  have hfails : CreateFails (twoSlots .zombie) forkFails := .inr (.inl (by decide))
  exact ⟨hfails, (thrCreate_undone_iff hfails 0).mpr ⟨rfl, hnone, .inr (by decide)⟩⟩

/-- A call that does not return is not undone. -/
lemma not_undone_of_stuck {call : ThrM ℤ} (h : (call s).1.toOption = none) : ¬ Undone s call := by
  unfold Undone wp
  rcases hcall : call s with ⟨e | r, s'⟩
  · exact id
  · rw [hcall] at h
    cases h

/-- **Failed calls that are not undone**: one that cannot add the child to the pool, and one
that has recycled a dead slot. -/
theorem not_undone_twoSlots :
    ((twoSlots .zombie).Quiet ∧ CreateFails (twoSlots .zombie) mallocFails ∧
      ¬ Undone (twoSlots .zombie) (thrCreate mallocFails 0)) ∧
    (twoSlots .dead).Quiet ∧ CreateFails (twoSlots .dead) forkFails ∧
      ¬ Undone (twoSlots .dead) (thrCreate forkFails 0) := by
  refine ⟨⟨twoSlots_quiet _, .inr (.inr ⟨by decide, .inl rfl⟩), not_undone_of_stuck ?_⟩,
    twoSlots_quiet _, .inr (.inl (by decide)), not_undone_of_stuck ?_⟩
  · decide +kernel
  · decide +kernel

end ShrekOS
