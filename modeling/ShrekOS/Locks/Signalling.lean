/-
The records of waiting threads, in `sem_wait` and `sem_signal` of `kern/locks/sem.c` and
`user/libthread/sem.c`, and in `cond_wait`, `cond_signal` and `cond_broadcast` of
`user/libthread/cond.c`.

* `WaitObjs`: any number of semaphores and condition variables, and the memory with the
  records: a record is on its waiter's stack, and is anything once the wait has returned;
* `SigPc`, `sigStep`: where a thread is, and the steps of these functions;
* `OwnWaiter`: the tid that a signaler passes to `make_runnable` is that of the waiter it has
  taken off the queue;
* `Lingers`: a waiter does not return while a signaler is between `reject = 1` and the tid;
* `ownWaiter_of_lingers`: **in a run whose waiters linger every signal wakes its own waiter**,
  and `not_ownWaiter_of_leaves`: when one does not, the next steps may wake another thread.

The mutexes exclude, the counts do not overflow, and `cond_wait`'s world mutex is left out.
-/
import ShrekOS.Lib.Threads
import ShrekOS.Locks.Semaphore

namespace ShrekOS

open Kit

/-- The two kinds of objects that threads wait on. -/
inductive WaitKind where
  | semaphore
  | condition
  deriving DecidableEq

/-- The objects: the holder of `m`, the count of a semaphore, and the queue, which holds the
addresses of records, each with the thread that put it there. The memory, the owner of each
live record, and the threads that are descheduled. -/
structure WaitObjs (O : Type) where
  m : O → Option ℕ
  count : O → ℤ
  q : O → List (ℕ × ℕ)
  mem : ℕ → ThrMetadata
  live : ℕ → Option ℕ
  descheduled : ℕ → Bool

/-- Where a thread is: outside, in a wait, or in a signal. The record is at address `a`; a
signaler knows the waiter `w` from the queue, and `all` says that it broadcasts. -/
inductive SigPc (O : Type) where
  | out
  | lock (o : O)
  | take (o : O)
  | record (o : O)
  | enqueue (o : O) (a : ℕ)
  | unlock (o : O) (a : ℕ)
  | admitted (o : O)
  | test (o : O) (a : ℕ)
  | exchange (o : O) (a : ℕ)
  | deschedule (o : O) (a : ℕ)
  | descheduled (o : O) (a : ℕ)
  | lockSignal (o : O) (all : Bool)
  | raise (o : O)
  | dequeue (o : O) (all : Bool)
  | reject (o : O) (a w : ℕ) (all : Bool)
  | readTid (o : O) (a w : ℕ) (all : Bool)
  | wake (o : O) (w tid : ℕ) (all : Bool)
  | unlockSignal (o : O)
  deriving DecidableEq

/-- The calls of a thread, a write of its own to memory, a `make_runnable` of its own, its next
step, and the address of its record. -/
inductive SigAct (O : Type) where
  | wait (o : O)
  | signal (o : O)
  | broadcast (o : O)
  | write (a : ℕ) (v : ThrMetadata)
  | makeRunnable (tid : ℕ)
  | run
  | place (a : ℕ)

section

variable {O : Type} [DecidableEq O]

namespace WaitObjs

/-- `mutex_lock(&(sem->m))`, when the mutex is free. -/
def mutexLock (s : WaitObjs O) (o : O) (t : ℕ) : Option (WaitObjs O) :=
  if s.m o = none then some { s with m := Function.update s.m o (some t) } else none

/-- `mutex_unlock(&(sem->m))`. -/
def mutexUnlock (s : WaitObjs O) (o : O) : WaitObjs O :=
  { s with m := Function.update s.m o none }

/-- `sem->count++` and `sem->count--`. -/
def addCount (s : WaitObjs O) (o : O) (d : ℤ) : WaitObjs O :=
  { s with count := Function.update s.count o (s.count o + d) }

/-- Another queue. -/
def setQueue (s : WaitObjs O) (o : O) (l : List (ℕ × ℕ)) : WaitObjs O :=
  { s with q := Function.update s.q o l }

/-- A write to memory. -/
def write (s : WaitObjs O) (a : ℕ) (v : ThrMetadata) : WaitObjs O :=
  { s with mem := Function.update s.mem a v }

/-- A write to the `reject` of a record. -/
def writeReject (s : WaitObjs O) (a : ℕ) (reject : ℤ) : WaitObjs O :=
  s.write a { s.mem a with reject := reject }

/-- The owner of a record. -/
def setLive (s : WaitObjs O) (a : ℕ) (t : Option ℕ) : WaitObjs O :=
  { s with live := Function.update s.live a t }

/-- The thread is descheduled, or made runnable. -/
def setDescheduled (s : WaitObjs O) (t : ℕ) (b : Bool) : WaitObjs O :=
  { s with descheduled := Function.update s.descheduled t b }

end WaitObjs

/-- The steps of a thread. A new record is put where no live one is, and a thread that is
outside writes anywhere but to a live record. -/
def sigStep (kind : O → WaitKind) (s : WaitObjs O) (t : ℕ) :
    SigPc O → SigAct O → Option (WaitObjs O × SigPc O)
  | .out, .wait o => some (s, .lock o)
  | .out, .signal o => some (s, .lockSignal o false)
  | .out, .broadcast o =>
      if kind o = .condition then some (s, .lockSignal o true) else none
  | .out, .write a v => if s.live a = none then some (s.write a v, .out) else none
  | .out, .makeRunnable tid => some (s.setDescheduled tid false, .out)
  -- `sem_wait`, `cond_wait`
  | .lock o, .run => (s.mutexLock o t).map fun s =>
      (s, if kind o = .semaphore then .take o else .record o)
  | .take o, .run =>
      some (s.addCount o (-1), if s.count o + -1 < 0 then .record o else .admitted o)
  | .record o, .place a =>
      if s.live a = none then some ((s.setLive a (some t)).write a ⟨t, 0⟩, .enqueue o a) else none
  | .enqueue o a, .run => some (s.setQueue o (s.q o ++ [(a, t)]), .unlock o a)
  | .unlock o a, .run => some (s.mutexUnlock o, .test o a)
  | .admitted o, .run => some (s.mutexUnlock o, .out)
  | .test o a, .run =>
      if (s.mem a).reject = 0 then some (s, .exchange o a) else some (s.setLive a none, .out)
  -- `deschedule`
  | .exchange o a, .run =>
      some (s.writeReject a 0, if (s.mem a).reject = 0 then .deschedule o a else .test o a)
  | .deschedule o a, .run => some (s.setDescheduled t true, .descheduled o a)
  | .descheduled o a, .run => if s.descheduled t then none else some (s, .test o a)
  -- `sem_signal`, `cond_signal`, `cond_broadcast`
  | .lockSignal o all, .run => (s.mutexLock o t).map fun s =>
      (s, if kind o = .semaphore then .raise o else .dequeue o all)
  | .raise o, .run =>
      some (s.addCount o 1, if s.count o + 1 ≤ 0 then .dequeue o false else .unlockSignal o)
  | .dequeue o all, .run =>
      match s.q o with
      | [] => some (s, .unlockSignal o)
      | (a, w) :: l => some (s.setQueue o l, .reject o a w all)
  | .reject o a w all, .run => some (s.writeReject a 1, .readTid o a w all)
  | .readTid o a w all, .run => some (s, .wake o w (s.mem a).tid all)
  | .wake o _ tid all, .run =>
      some (s.setDescheduled tid false, if all then .dequeue o true else .unlockSignal o)
  | .unlockSignal o, .run => some (s.mutexUnlock o, .out)
  | _, _ => none

/-- Fresh objects: the memory holds anything. -/
def waitInit (count : O → ℤ) (mem : ℕ → ThrMetadata) : WaitObjs O where
  m := fun _ => none
  count := count
  q := fun _ => []
  mem := mem
  live := fun _ => none
  descheduled := fun _ => false

/-- The threads that use the objects. -/
def sigThreads (kind : O → WaitKind) : Threads (WaitObjs O) (SigPc O) (SigAct O) where
  init s := ∃ count mem, s = (waitInit count mem, fun _ => .out)
  step := sigStep kind

end

variable {O : Type}

/-- **A signal wakes its own waiter**: the tid that any signaler passes to `make_runnable` is
that of the waiter it has taken off the queue. -/
def OwnWaiter (pc : ℕ → SigPc O) : Prop :=
  ∀ u o w tid all, pc u = .wake o w tid all → tid = w

/-- The signaler has written the `reject` of a record, and goes on to read its tid. -/
def SigPc.Reads : SigPc O → ℕ → Prop
  | .readTid _ a _ _, b => a = b
  | _, _ => False

/-- The object and the record of a waiter at the test of its loop. -/
def SigPc.looksAt : SigPc O → Option (O × ℕ)
  | .test o a => some (o, a)
  | _ => none

/-- **The condition**: a waiter that finds its `reject` set does not return while the holder of
the mutex has still to read the tid of its record. -/
def Lingers (s : WaitObjs O × (ℕ → SigPc O)) (x : ℕ × SigAct O) : Prop :=
  ∀ r ∈ (s.2 x.1).looksAt, (s.1.mem r.2).reject ≠ 0 → ∀ u ∈ s.1.m r.1, ¬ (s.2 u).Reads r.2

instance (p : SigPc O) (a : ℕ) : Decidable (p.Reads a) :=
  match p with
  | .readTid _ b _ _ => inferInstanceAs (Decidable (b = a))
  | .out | .lock _ | .take _ | .record _ | .enqueue _ _ | .unlock _ _ | .admitted _ | .test _ _
  | .exchange _ _ | .deschedule _ _ | .descheduled _ _ | .lockSignal _ _ | .raise _
  | .dequeue _ _ | .reject _ _ _ _ | .wake _ _ _ _ | .unlockSignal _ =>
      inferInstanceAs (Decidable False)

instance (s : WaitObjs O × (ℕ → SigPc O)) (x : ℕ × SigAct O) : Decidable (Lingers s x) :=
  inferInstanceAs (Decidable (∀ r ∈ (s.2 x.1).looksAt, (s.1.mem r.2).reject ≠ 0 →
    ∀ u ∈ s.1.m r.1, ¬ (s.2 u).Reads r.2))

/-! ### The invariant -/

/-- Where a live record is: not queued yet, in a queue, taken off it by a signaler that has not
written to it, or told to leave. -/
inductive RecordAt (O : Type) where
  | fresh
  | queued (o : O)
  | taken (o : O) (t : ℕ)
  | told (o : O)

/-- The object on which the waiter of a record waits. -/
def RecordAt.object : RecordAt O → Option O
  | .fresh => none
  | .queued o | .taken o _ | .told o => some o

namespace SigPc

/-- The object whose mutex the thread holds. -/
@[simp] def holds : SigPc O → Option O
  | .take o | .record o | .enqueue o _ | .unlock o _ | .admitted o | .raise o | .dequeue o _
  | .reject o _ _ _ | .readTid o _ _ _ | .wake o _ _ _ | .unlockSignal o => some o
  | _ => none

/-- The object on which the thread waits, with its record. -/
@[simp] def waitsOn : SigPc O → Option (O × ℕ)
  | .unlock o a | .test o a | .exchange o a | .deschedule o a | .descheduled o a => some (o, a)
  | _ => none

/-- The record that the thread goes on to use, its own or that of a waiter. -/
@[simp] def uses : SigPc O → Option ℕ
  | .enqueue _ a | .unlock _ a | .test _ a | .exchange _ a | .deschedule _ a | .descheduled _ a
  | .reject _ a _ _ | .readTid _ a _ _ => some a
  | _ => none

end SigPc

/-- **The invariant of the records.** -/
structure SigInv (s : WaitObjs O) (g : ℕ → RecordAt O) : Prop where
  tid : ∀ a w, s.live a = some w → (s.mem a).tid = w
  reject : ∀ a w, s.live a = some w → (s.mem a).reject ≠ 0 → ∃ o, g a = .told o
  queued : ∀ o a w, (a, w) ∈ s.q o → s.live a = some w ∧ g a = .queued o
  nodup : ∀ o, ((s.q o).map Prod.fst).Nodup

/-- The assertion of a thread. -/
structure SigAssert (s : WaitObjs O) (g : ℕ → RecordAt O) (t : ℕ) (p : SigPc O) : Prop where
  holds : ∀ o, p.holds = some o → s.m o = some t
  fresh : ∀ o a, p = .enqueue o a → s.live a = some t ∧ g a = .fresh
  waits : ∀ o a, p.waitsOn = some (o, a) → s.live a = some t ∧ (g a).object = some o
  taken : ∀ o a w all, p = .reject o a w all → s.live a = some w ∧ g a = .taken o t
  told : ∀ o a w all, p = .readTid o a w all → s.live a = some w ∧ g a = .told o
  own : ∀ o w tid all, p = .wake o w tid all → tid = w

/-- A step leaves a record alone, as far as a thread at the given place is concerned. -/
def Spared (s : WaitObjs O) (g : ℕ → RecordAt O) (s' : WaitObjs O) (g' : ℕ → RecordAt O)
    (p : SigPc O) (a : ℕ) : Prop :=
  s'.live a = s.live a ∧ (g' a = g a ∨ p.waitsOn ≠ none ∧ (g' a).object = (g a).object)

/-- What a step of a thread establishes. -/
def SigKept (t : ℕ) (pc : ℕ → SigPc O) (s' : WaitObjs O) (p' : SigPc O) : Prop :=
  ∃ g', SigInv s' g' ∧ SigAssert s' g' t p' ∧ ∀ u, u ≠ t → SigAssert s' g' u (pc u)

variable {kind : O → WaitKind} {s s' : WaitObjs O} {g g' : ℕ → RecordAt O} {t u w a b : ℕ}
  {pc : ℕ → SigPc O} {p p' : SigPc O} {o : O}

/-- A thread whose record is left alone, and whose mutex is still its own, keeps its
assertion. -/
lemma SigAssert.other (h : SigAssert s g u p) (hm : ∀ o, s.m o = some u → s'.m o = some u)
    (hkeep : ∀ a, p.uses = some a → Spared s g s' g' p a) : SigAssert s' g' u p where
  holds o ho := hm o (h.holds o ho)
  fresh o a hp := by
    subst hp
    obtain ⟨hlive, hg⟩ := hkeep a rfl
    rw [hlive, hg.resolve_right fun hw => hw.1 rfl]
    exact h.fresh o a rfl
  waits o a hp := by
    have huses : p.uses = some a := by
      cases p <;> simp_all
    obtain ⟨hlive, hg⟩ := hkeep a huses
    have hobject : (g' a).object = (g a).object := by
      rcases hg with hg | hg
      · rw [hg]
      · exact hg.2
    rw [hlive, hobject]
    exact h.waits o a hp
  taken o a w all hp := by
    subst hp
    obtain ⟨hlive, hg⟩ := hkeep a rfl
    rw [hlive, hg.resolve_right fun hw => hw.1 rfl]
    exact h.taken o a w all rfl
  told o a w all hp := by
    subst hp
    obtain ⟨hlive, hg⟩ := hkeep a rfl
    rw [hlive, hg.resolve_right fun hw => hw.1 rfl]
    exact h.told o a w all rfl
  own := h.own

/-- The record that a thread uses is live. -/
lemma SigAssert.live_ne_none (h : SigAssert s g u p) (ha : p.uses = some a) : s.live a ≠ none := by
  have hlive : ∃ w, s.live a = some w := by
    cases p with
    | enqueue o b =>
        obtain rfl := Option.some.inj ha
        exact ⟨u, (h.fresh o b rfl).1⟩
    | reject o b w all =>
        obtain rfl := Option.some.inj ha
        exact ⟨w, (h.taken o b w all rfl).1⟩
    | readTid o b w all =>
        obtain rfl := Option.some.inj ha
        exact ⟨w, (h.told o b w all rfl).1⟩
    | unlock o b | test o b | exchange o b | deschedule o b | descheduled o b =>
        obtain rfl := Option.some.inj ha
        exact ⟨u, (h.waits o b rfl).1⟩
    | _ => cases ha
  obtain ⟨w, hw⟩ := hlive
  rw [hw]
  exact Option.some_ne_none w

/-- Whose record a thread uses: its own, as a waiter or before it is queued, or that of a waiter
that it has taken off a queue. -/
lemma SigAssert.uses_cases (h : SigAssert s g u p) (ha : p.uses = some a) :
    s.live a = some u ∧ (p.waitsOn ≠ none ∨ g a = .fresh) ∨ (∃ o, g a = .taken o u) ∨
      ∃ o, g a = .told o ∧ p.holds = some o ∧ p.Reads a := by
  cases p with
  | enqueue o b =>
      obtain rfl := Option.some.inj ha
      exact .inl ⟨(h.fresh o b rfl).1, .inr (h.fresh o b rfl).2⟩
  | reject o b w all =>
      obtain rfl := Option.some.inj ha
      exact .inr (.inl ⟨o, (h.taken o b w all rfl).2⟩)
  | readTid o b w all =>
      obtain rfl := Option.some.inj ha
      exact .inr (.inr ⟨o, (h.told o b w all rfl).2, rfl, rfl⟩)
  | unlock o b | test o b | exchange o b | deschedule o b | descheduled o b =>
      obtain rfl := Option.some.inj ha
      exact .inl ⟨(h.waits o b rfl).1, .inl nofun⟩
  | _ => cases ha

/-- A record that is in the queue, or that another thread has taken off it, is used by its waiter
alone. -/
lemma SigAssert.waitsOn_of_uses (h : SigAssert s g u p) (ha : p.uses = some a)
    (hfresh : g a ≠ .fresh) (htaken : ∀ o, g a ≠ .taken o u) (htold : ∀ o, g a ≠ .told o) :
    p.waitsOn ≠ none := by
  rcases h.uses_cases ha with ⟨-, hwaits | hg⟩ | ⟨o, hg⟩ | ⟨o, hg, -⟩
  · exact hwaits
  · exact absurd hg hfresh
  · exact absurd hg (htaken o)
  · exact absurd hg (htold o)

/-- The records that have been told to leave stay so when another one moves. -/
lemma SigInv.reject_update (hI : SigInv s g) (ha : ∀ o, g a ≠ .told o) (x : RecordAt O) {b : ℕ}
    (hb : s.live b = some w) (hr : (s.mem b).reject ≠ 0) :
    ∃ o, Function.update g a x b = .told o := by
  obtain ⟨o, ho⟩ := hI.reject b w hb hr
  have hba : b ≠ a := by
    rintro rfl
    exact ha o ho
  exact ⟨o, (Function.update_of_ne hba ..).trans ho⟩

/-- So do the records in the queues. -/
lemma SigInv.queued_update (hI : SigInv s g) (ha : ∀ o, g a ≠ .queued o) (x : RecordAt O) {b : ℕ}
    (hb : (b, w) ∈ s.q o) : s.live b = some w ∧ Function.update g a x b = .queued o := by
  obtain ⟨hlive, hg⟩ := hI.queued o b w hb
  have hba : b ≠ a := by
    rintro rfl
    exact ha o hg
  exact ⟨hlive, (Function.update_of_ne hba ..).trans hg⟩

/-- The place of one record changes; the others that use it are its waiter, at the same object. -/
lemma Spared.update {x : RecordAt O} (hlive : s'.live = s.live)
    (h : b = a → p.waitsOn ≠ none ∧ x.object = (g a).object) :
    Spared s g s' (Function.update g a x) p b := by
  refine ⟨by rw [hlive], ?_⟩
  by_cases hb : b = a
  · subst hb
    rw [Function.update_self]
    exact .inr (h rfl)
  · exact .inl (Function.update_of_ne hb ..)

/-! ### Steps that leave the records alone -/

/-- A thread that has no record, or keeps the one it waits with, moves on. -/
lemma SigAssert.move (h : SigAssert s g t p) (hlive : s'.live = s.live)
    (hholds : ∀ o, p'.holds = some o → s'.m o = some t)
    (hwaits : p'.waitsOn = none ∨ p'.waitsOn = p.waitsOn)
    (huses : p'.uses = none ∨ p'.waitsOn ≠ none)
    (hown : ∀ o w tid all, p' = .wake o w tid all → tid = w) : SigAssert s' g t p' where
  holds := hholds
  fresh o a hp := by
    subst hp
    rcases huses with huses | huses
    · cases huses
    · exact absurd rfl huses
  waits o a hp := by
    rcases hwaits with hnone | hsame
    · rw [hnone] at hp
      cases hp
    · rw [hlive]
      exact h.waits o a (hsame ▸ hp)
  taken o a w all hp := by
    subst hp
    rcases huses with huses | huses
    · cases huses
    · exact absurd rfl huses
  told o a w all hp := by
    subst hp
    rcases huses with huses | huses
    · cases huses
    · exact absurd rfl huses
  own := hown

/-- What a step makes of the records, and of the assertions of the others. -/
lemma SigKept.of (g' : ℕ → RecordAt O) (hA : ∀ u, SigAssert s g u (pc u)) (hI : SigInv s' g')
    (hown : SigAssert s' g' t p') (hm : ∀ u o, u ≠ t → s.m o = some u → s'.m o = some u)
    (hkeep : ∀ u a, u ≠ t → (pc u).uses = some a → Spared s g s' g' (pc u) a) :
    SigKept t pc s' p' :=
  ⟨g', hI, hown, fun u hu => (hA u).other (fun o => hm u o hu) fun a => hkeep u a hu⟩

/-- A step that writes to no record. -/
lemma SigKept.move (hI : SigInv s g) (hA : ∀ u, SigAssert s g u (pc u)) (hmem : s'.mem = s.mem)
    (hlive : s'.live = s.live) (hq : s'.q = s.q)
    (hm : ∀ u o, u ≠ t → s.m o = some u → s'.m o = some u)
    (hholds : ∀ o, p'.holds = some o → s'.m o = some t)
    (hwaits : p'.waitsOn = none ∨ p'.waitsOn = (pc t).waitsOn)
    (huses : p'.uses = none ∨ p'.waitsOn ≠ none)
    (hown : ∀ o w tid all, p' = .wake o w tid all → tid = w) : SigKept t pc s' p' := by
  refine SigKept.of g hA ⟨?_, ?_, ?_, ?_⟩ ((hA t).move hlive hholds hwaits huses hown) hm ?_
  · rw [hlive, hmem]
    exact hI.tid
  · rw [hlive, hmem]
    exact hI.reject
  · rw [hlive, hq]
    exact hI.queued
  · rw [hq]
    exact hI.nodup
  · exact fun u a _ _ => ⟨by rw [hlive], .inl rfl⟩

/-- A thread moves on, with or without its mutex. -/
lemma SigKept.stay (hI : SigInv s g) (hA : ∀ u, SigAssert s g u (pc u)) (hpc : pc t = p)
    (hsame : s'.mem = s.mem ∧ s'.live = s.live ∧ s'.q = s.q ∧ s'.m = s.m)
    (hholds : p'.holds = none ∨ p'.holds = p.holds)
    (hwaits : p'.waitsOn = none ∨ p'.waitsOn = p.waitsOn)
    (huses : p'.uses = none ∨ p'.waitsOn ≠ none)
    (hown : ∀ o w tid all, p' = .wake o w tid all → tid = w) : SigKept t pc s' p' := by
  subst hpc
  obtain ⟨hmem, hlive, hq, hm⟩ := hsame
  refine SigKept.move hI hA hmem hlive hq (fun u o _ => by rw [hm]; exact id) (fun o ho => ?_)
    hwaits huses hown
  rcases hholds with hnone | hsame
  · rw [hnone] at ho
    cases ho
  · rw [hm]
    exact (hA t).holds o (hsame ▸ ho)

/-! ### Steps on the records -/

/-- The `xchng` of a waiter clears its `reject`. -/
lemma SigKept.exchange (hI : SigInv s g) (hA : ∀ u, SigAssert s g u (pc u))
    (hwaits : p'.waitsOn = (pc t).waitsOn) (hsome : p'.waitsOn ≠ none) (hholds : p'.holds = none) :
    SigKept t pc (s.writeReject a 0) p' := by
  have hmem : ∀ b, ((s.writeReject a 0).mem b).tid = (s.mem b).tid ∧
      (((s.writeReject a 0).mem b).reject ≠ 0 → (s.mem b).reject ≠ 0) := by
    intro b
    change (Function.update s.mem a _ b).tid = _ ∧ ((Function.update s.mem a _ b).reject ≠ 0 → _)
    by_cases hb : b = a
    · subst hb
      rw [Function.update_self]
      exact ⟨rfl, fun hne => absurd rfl hne⟩
    · rw [Function.update_of_ne hb]
      exact ⟨rfl, id⟩
  refine SigKept.of g hA ⟨fun b w hb => ?_, fun b w hb hne => ?_, hI.queued, hI.nodup⟩
    ((hA t).move rfl (fun o ho => ?_) (.inr hwaits) (.inr hsome) fun o w tid all hp => ?_)
    (fun u o _ => id) fun u b _ _ => ⟨rfl, .inl rfl⟩
  · rw [(hmem b).1]
    exact hI.tid b w hb
  · exact hI.reject b w hb ((hmem b).2 hne)
  · rw [hholds] at ho
    cases ho
  · subst hp
    exact absurd rfl hsome

/-- Anything is written where no live record is. -/
lemma SigKept.write {v : ThrMetadata} (hI : SigInv s g) (hA : ∀ u, SigAssert s g u (pc u))
    (ha : s.live a = none) : SigKept t pc (s.write a v) .out := by
  have hmem : ∀ b w, s.live b = some w → (s.write a v).mem b = s.mem b := by
    intro b w hb
    have hne : b ≠ a := by
      rintro rfl
      rw [ha] at hb
      cases hb
    exact Function.update_of_ne hne ..
  refine SigKept.of g hA ⟨fun b w hb => ?_, fun b w hb hne => ?_, hI.queued, hI.nodup⟩ ?_
    (fun u o _ => id) fun u b _ _ => ⟨rfl, .inl rfl⟩
  · rw [hmem b w hb]
    exact hI.tid b w hb
  · rw [hmem b w hb] at hne
    exact hI.reject b w hb hne
  · exact (hA t).move rfl nofun (.inl rfl) (.inl rfl) nofun

/-- A waiter writes its record where no live one is. -/
lemma SigKept.place (hI : SigInv s g) (hA : ∀ u, SigAssert s g u (pc u)) (ha : s.live a = none)
    (hp : pc t = .record o) :
    SigKept t pc ((s.setLive a (some t)).write a ⟨t, 0⟩) (.enqueue o a) := by
  have hne : ∀ b, s.live b ≠ none → b ≠ a := by
    rintro b hb rfl
    exact hb ha
  refine SigKept.of (Function.update g a .fresh) hA ⟨fun b w hb => ?_, fun b w hb hr => ?_,
    fun o' b w hb => ?_, hI.nodup⟩ ?_ (fun u o _ => id) fun u b _ hb => ?_
  · change Function.update s.live a _ b = some w at hb
    change (Function.update s.mem a _ b).tid = w
    by_cases hba : b = a
    · subst hba
      rw [Function.update_self] at hb ⊢
      exact Option.some.inj hb
    · rw [Function.update_of_ne hba] at hb ⊢
      exact hI.tid b w hb
  · change Function.update s.live a _ b = some w at hb
    change (Function.update s.mem a _ b).reject ≠ 0 at hr
    by_cases hba : b = a
    · subst hba
      rw [Function.update_self] at hr
      exact absurd rfl hr
    · rw [Function.update_of_ne hba] at hb hr ⊢
      exact hI.reject b w hb hr
  · obtain ⟨hlive, hg⟩ := hI.queued o' b w hb
    have hba : b ≠ a := hne b (by rw [hlive]; nofun)
    exact ⟨(Function.update_of_ne hba ..).trans hlive, (Function.update_of_ne hba ..).trans hg⟩
  · refine ⟨fun o' ho' => ?_, fun o' b hb => ?_, nofun, nofun, nofun, nofun⟩
    · exact (hA t).holds o' (by rw [hp]; exact ho')
    · obtain ⟨-, rfl⟩ := SigPc.enqueue.inj hb
      exact ⟨Function.update_self .., Function.update_self ..⟩
  · have hba : b ≠ a := hne b ((hA u).live_ne_none hb)
    exact ⟨Function.update_of_ne hba .., .inl (Function.update_of_ne hba ..)⟩

/-- A signaler tells the waiter of the record that it has taken to leave. -/
lemma SigKept.reject {all : Bool} (hI : SigInv s g) (hA : ∀ u, SigAssert s g u (pc u))
    (hp : pc t = .reject o a w all) :
    SigKept t pc (s.writeReject a 1) (.readTid o a w all) := by
  have h := hA t
  rw [hp] at h
  obtain ⟨hlive, hg⟩ := h.taken o a w all rfl
  have hmem : ∀ b, b ≠ a → (s.writeReject a 1).mem b = s.mem b := fun b hb =>
    Function.update_of_ne hb ..
  refine SigKept.of (Function.update g a (.told o)) hA ⟨fun b w' hb => ?_, fun b w' hb hr => ?_,
    fun o' b w' hb => ?_, hI.nodup⟩ ?_ (fun u o _ => id) fun u b hu hb => ?_
  · by_cases hba : b = a
    · subst hba
      change (Function.update s.mem b _ b).tid = w'
      rw [Function.update_self]
      exact hI.tid b w' hb
    · rw [hmem b hba]
      exact hI.tid b w' hb
  · by_cases hba : b = a
    · subst hba
      exact ⟨o, Function.update_self ..⟩
    · rw [hmem b hba] at hr
      rw [Function.update_of_ne hba]
      exact hI.reject b w' hb hr
  · exact hI.queued_update (by rw [hg]; nofun) _ hb
  · refine ⟨h.holds, nofun, nofun, nofun, fun o' b w' all' hb => ?_, nofun⟩
    obtain ⟨rfl, rfl, rfl, -⟩ := SigPc.readTid.inj hb
    exact ⟨hlive, Function.update_self ..⟩
  · refine Spared.update rfl fun hba => ?_
    subst hba
    refine ⟨(hA u).waitsOn_of_uses hb (by rw [hg]; nofun) (fun o' ho' => ?_) (by rw [hg]; nofun),
      by rw [hg]; rfl⟩
    rw [hg] at ho'
    exact hu (RecordAt.taken.inj ho').2.symm

/-- **A waiter that lingers returns**: nobody uses its record any more. -/
lemma SigKept.leave (hI : SigInv s g) (hA : ∀ u, SigAssert s g u (pc u)) (hp : pc t = .test o a)
    (hr : (s.mem a).reject ≠ 0) (hlinger : ∀ u, s.m o = some u → ¬ (pc u).Reads a) :
    SigKept t pc (s.setLive a none) .out := by
  have h := hA t
  rw [hp] at h
  obtain ⟨hlive, hobject⟩ := h.waits o a rfl
  obtain ⟨o₁, hg⟩ := hI.reject a t hlive hr
  rw [hg] at hobject
  obtain rfl := Option.some.inj hobject
  have hsame : ∀ b w, (s.setLive a none).live b = some w → s.live b = some w := by
    intro b w hb
    change Function.update s.live a none b = some w at hb
    by_cases hba : b = a
    · subst hba
      rw [Function.update_self] at hb
      cases hb
    · rwa [Function.update_of_ne hba] at hb
  refine SigKept.of g hA ⟨fun b w hb => hI.tid b w (hsame b w hb),
    fun b w hb hr => hI.reject b w (hsame b w hb) hr, fun o' b w hb => ?_, hI.nodup⟩
    ⟨nofun, nofun, nofun, nofun, nofun, nofun⟩ (fun u o _ => id) fun u b hu hb => ?_
  · obtain ⟨hlive', hg'⟩ := hI.queued o' b w hb
    have hba : b ≠ a := by
      rintro rfl
      rw [hg] at hg'
      cases hg'
    exact ⟨(Function.update_of_ne hba ..).trans hlive', hg'⟩
  · have hba : b ≠ a := by
      rintro rfl
      rcases (hA u).uses_cases hb with ⟨hown, -⟩ | ⟨o', htaken⟩ | ⟨o', htold, hholds, hreads⟩
      · exact hu (Option.some.inj (hown.symm.trans hlive))
      · rw [hg] at htaken
        cases htaken
      · rw [hg] at htold
        obtain rfl := RecordAt.told.inj htold
        exact hlinger u ((hA u).holds o₁ hholds) hreads
    exact ⟨Function.update_of_ne hba .., .inl rfl⟩

variable [DecidableEq O]

/-- Taking a mutex takes it from nobody. -/
lemma WaitObjs.mutexLock_spec (h : s.mutexLock o t = some s') :
    (s'.mem = s.mem ∧ s'.live = s.live ∧ s'.q = s.q) ∧ s'.m o = some t ∧
      ∀ u o', u ≠ t → s.m o' = some u → s'.m o' = some u := by
  unfold WaitObjs.mutexLock at h
  split_ifs at h with hm
  cases h
  refine ⟨⟨rfl, rfl, rfl⟩, Function.update_self .., fun u o' _ hu => ?_⟩
  have hne : o' ≠ o := by
    rintro rfl
    rw [hm] at hu
    cases hu
  exact (Function.update_of_ne hne ..).trans hu

/-- The holder of a mutex gives up that one only. -/
lemma WaitObjs.mutexUnlock_other (h : s.m o = some t) {o' : O} (hu : u ≠ t)
    (hm : s.m o' = some u) : (s.mutexUnlock o).m o' = some u := by
  have hne : o' ≠ o := by
    rintro rfl
    exact hu (Option.some.inj (hm.symm.trans h))
  exact (Function.update_of_ne hne ..).trans hm

/-- A thread takes a mutex. -/
lemma SigKept.lock (hI : SigInv s g) (hA : ∀ u, SigAssert s g u (pc u))
    (hs : s.mutexLock o t = some s') (hholds : p'.holds = some o) (hwaits : p'.waitsOn = none)
    (huses : p'.uses = none) (hown : ∀ o w tid all, p' ≠ .wake o w tid all) :
    SigKept t pc s' p' := by
  obtain ⟨⟨hmem, hlive, hq⟩, hm, hother⟩ := WaitObjs.mutexLock_spec hs
  refine SigKept.move hI hA hmem hlive hq hother (fun o' ho' => ?_) (.inl hwaits) (.inl huses)
    fun o w tid all hp => absurd hp (hown o w tid all)
  obtain rfl := Option.some.inj (hholds.symm.trans ho')
  exact hm

/-- A thread releases its mutex. -/
lemma SigKept.unlock (hI : SigInv s g) (hA : ∀ u, SigAssert s g u (pc u))
    (hpc : (pc t).holds = some o) (hholds : p'.holds = none)
    (hwaits : p'.waitsOn = none ∨ p'.waitsOn = (pc t).waitsOn)
    (huses : p'.uses = none ∨ p'.waitsOn ≠ none) : SigKept t pc (s.mutexUnlock o) p' := by
  have hm := (hA t).holds o hpc
  refine SigKept.move hI hA rfl rfl rfl (fun u o' hu => s.mutexUnlock_other hm hu)
    (fun o' ho' => ?_) hwaits huses fun o w tid all hp => ?_
  · rw [hholds] at ho'
    cases ho'
  · subst hp
    cases hholds

/-- A waiter puts its record into the queue. -/
lemma SigKept.enqueue (hI : SigInv s g) (hA : ∀ u, SigAssert s g u (pc u))
    (hp : pc t = .enqueue o a) :
    SigKept t pc (s.setQueue o (s.q o ++ [(a, t)])) (.unlock o a) := by
  obtain ⟨hlive, hg⟩ := (hA t).fresh o a hp
  -- a record that is new is in no queue
  have hnot : ∀ o' w, (a, w) ∉ s.q o' := by
    intro o' w hmem
    have hq := (hI.queued o' a w hmem).2
    rw [hg] at hq
    cases hq
  have hqueue : ∀ o', (s.setQueue o (s.q o ++ [(a, t)])).q o' =
      if o' = o then s.q o ++ [(a, t)] else s.q o' := by
    intro o'
    exact Function.update_apply ..
  -- the ghost notes that it is queued at `o`
  refine SigKept.of (Function.update g a (.queued o)) hA ⟨hI.tid, fun b w hb hr => ?_,
    fun o' b w hb => ?_, fun o' => ?_⟩ ?_ (fun u o _ => id) fun u b hu hb => ?_
  · exact hI.reject_update (by rw [hg]; nofun) _ hb hr
  · rw [hqueue] at hb
    have hcase : (b, w) = (a, t) ∧ o' = o ∨ (b, w) ∈ s.q o' := by
      split_ifs at hb with ho
      · subst ho
        rcases List.mem_append.mp hb with hb | hb
        · exact .inr hb
        · exact .inl ⟨List.mem_singleton.mp hb, rfl⟩
      · exact .inr hb
    rcases hcase with ⟨heq, rfl⟩ | hold
    · obtain ⟨rfl, rfl⟩ := Prod.mk.inj heq
      exact ⟨hlive, Function.update_self ..⟩
    · exact hI.queued_update (by rw [hg]; nofun) _ hold
  · rw [hqueue]
    split_ifs with ho
    · rw [List.map_append, List.nodup_append]
      refine ⟨hI.nodup o, List.nodup_singleton a, ?_⟩
      rintro x hx y hy rfl
      obtain ⟨⟨b, w⟩, hmem, rfl⟩ := List.mem_map.mp hx
      obtain rfl := List.mem_singleton.mp hy
      exact hnot o w hmem
    · exact hI.nodup o'
  · refine ⟨fun o' ho' => ?_, nofun, fun o' b hb => ?_, nofun, nofun, nofun⟩
    · exact (hA t).holds o' (by rw [hp]; exact ho')
    · obtain ⟨rfl, rfl⟩ := Prod.mk.inj (Option.some.inj hb)
      refine ⟨hlive, ?_⟩
      rw [Function.update_self]
      rfl
  · refine Spared.update rfl fun hba => ?_
    subst hba
    -- another thread uses the record: it would have to be its own, taken or told
    rcases (hA u).uses_cases hb with ⟨hown, -⟩ | ⟨o', htaken⟩ | ⟨o', htold, -⟩
    · exact absurd (Option.some.inj (hown.symm.trans hlive)) hu
    · rw [hg] at htaken
      cases htaken
    · rw [hg] at htold
      cases htold

/-- A signaler takes the first record off the queue. -/
lemma SigKept.dequeue {l : List (ℕ × ℕ)} {all : Bool} (hI : SigInv s g)
    (hA : ∀ u, SigAssert s g u (pc u)) (hp : pc t = .dequeue o all) (hq : s.q o = (a, w) :: l) :
    SigKept t pc (s.setQueue o l) (.reject o a w all) := by
  obtain ⟨hlive, hg⟩ := hI.queued o a w (by rw [hq]; exact .head l)
  have hnodup := hI.nodup o
  rw [hq, List.map_cons, List.nodup_cons] at hnodup
  have hqueue : ∀ o', (s.setQueue o l).q o' = if o' = o then l else s.q o' := by
    intro o'
    exact Function.update_apply ..
  refine SigKept.of (Function.update g a (.taken o t)) hA ⟨hI.tid, fun b w hb hr => ?_,
    fun o' b w' hb => ?_, fun o' => ?_⟩ ?_ (fun u o _ => id) fun u b hu hb => ?_
  · exact hI.reject_update (by rw [hg]; nofun) _ hb hr
  · rw [hqueue] at hb
    have hold : (b, w') ∈ s.q o' ∧ b ≠ a := by
      split_ifs at hb with ho
      · subst ho
        refine ⟨by rw [hq]; exact .tail _ hb, ?_⟩
        rintro rfl
        exact hnodup.1 (List.mem_map.mpr ⟨_, hb, rfl⟩)
      · refine ⟨hb, ?_⟩
        rintro rfl
        have hother := (hI.queued o' b w' hb).2
        rw [hg] at hother
        exact ho (RecordAt.queued.inj hother).symm
    obtain ⟨hmem, hba⟩ := hold
    obtain ⟨hlive', hg'⟩ := hI.queued o' b w' hmem
    exact ⟨hlive', (Function.update_of_ne hba ..).trans hg'⟩
  · rw [hqueue]
    split_ifs with ho
    · exact hnodup.2
    · exact hI.nodup o'
  · refine ⟨fun o' ho' => ?_, nofun, nofun, fun o' b w' all' hb => ?_, nofun, nofun⟩
    · exact (hA t).holds o' (by rw [hp]; exact ho')
    · obtain ⟨rfl, rfl, rfl, -⟩ := SigPc.reject.inj hb
      exact ⟨hlive, Function.update_self ..⟩
  · refine Spared.update rfl fun hba => ?_
    subst hba
    exact ⟨(hA u).waitsOn_of_uses hb (by rw [hg]; nofun) (by rw [hg]; nofun) (by rw [hg]; nofun),
      by rw [hg]; rfl⟩

/-! ### Runs -/

/-- **A step whose waiter lingers keeps the invariant.** -/
theorem sigStep_kept {x : SigAct O} (hI : SigInv s g) (hA : ∀ u, SigAssert s g u (pc u))
    (hG : Lingers (s, pc) (t, x)) (hs : sigStep kind s t (pc t) x = some (s', p')) :
    SigKept t pc s' p' := by
  have h := hA t
  generalize hpc : pc t = p at hs h
  have hsame : s.mem = s.mem ∧ s.live = s.live ∧ s.q = s.q ∧ s.m = s.m := ⟨rfl, rfl, rfl, rfl⟩
  cases p with
  -- outside
  | out =>
      cases x with
      | wait o =>
          cases hs
          exact SigKept.stay hI hA hpc hsame (.inl rfl) (.inl rfl) (.inl rfl) nofun
      | signal o =>
          cases hs
          exact SigKept.stay hI hA hpc hsame (.inl rfl) (.inl rfl) (.inl rfl) nofun
      | broadcast o =>
          rw [sigStep] at hs
          split_ifs at hs
          cases hs
          exact SigKept.stay hI hA hpc hsame (.inl rfl) (.inl rfl) (.inl rfl) nofun
      | write a v =>
          rw [sigStep] at hs
          split_ifs at hs with ha
          cases hs
          exact SigKept.write hI hA ha
      | makeRunnable tid =>
          cases hs
          exact SigKept.stay hI hA hpc ⟨rfl, rfl, rfl, rfl⟩ (.inl rfl) (.inl rfl) (.inl rfl) nofun
      | _ => cases hs
  -- `sem_wait`, `cond_wait`
  | lock o =>
      cases x with
      | run =>
          obtain ⟨s₁, hs₁, heq⟩ := Option.map_eq_some_iff.mp hs
          cases heq
          split_ifs
          · exact SigKept.lock hI hA hs₁ rfl rfl rfl nofun
          · exact SigKept.lock hI hA hs₁ rfl rfl rfl nofun
      | _ => cases hs
  | take o =>
      cases x with
      | run =>
          cases hs
          split_ifs
          · exact SigKept.stay hI hA hpc ⟨rfl, rfl, rfl, rfl⟩ (.inr rfl) (.inl rfl) (.inl rfl) nofun
          · exact SigKept.stay hI hA hpc ⟨rfl, rfl, rfl, rfl⟩ (.inr rfl) (.inl rfl) (.inl rfl) nofun
      | _ => cases hs
  | record o =>
      cases x with
      | place a =>
          rw [sigStep] at hs
          split_ifs at hs with ha
          cases hs
          exact SigKept.place hI hA ha hpc
      | _ => cases hs
  | enqueue o a =>
      cases x with
      | run =>
          cases hs
          exact SigKept.enqueue hI hA hpc
      | _ => cases hs
  | unlock o a =>
      cases x with
      | run =>
          cases hs
          refine SigKept.unlock hI hA (by rw [hpc]; rfl) rfl (.inr (by rw [hpc]; rfl)) (.inr nofun)
      | _ => cases hs
  | admitted o =>
      cases x with
      | run =>
          cases hs
          exact SigKept.unlock hI hA (by rw [hpc]; rfl) rfl (.inl rfl) (.inl rfl)
      | _ => cases hs
  | test o a =>
      cases x with
      | run =>
          rw [sigStep] at hs
          split_ifs at hs with hr
          · cases hs
            exact SigKept.stay hI hA hpc hsame (.inl rfl) (.inr rfl) (.inr nofun) nofun
          · cases hs
            -- the waiter returns, and `Lingers` says that no signaler has still to read its record
            have hlook : ∀ o a, pc t = .test o a → (o, a) ∈ (pc t).looksAt := fun o a ha => by
              rw [ha]
              rfl
            exact SigKept.leave hI hA hpc hr (hG _ (hlook _ _ hpc) hr)
      | _ => cases hs
  -- `deschedule`
  | exchange o a =>
      cases x with
      | run =>
          cases hs
          split_ifs
          · exact SigKept.exchange hI hA (by rw [hpc]; rfl) nofun rfl
          · exact SigKept.exchange hI hA (by rw [hpc]; rfl) nofun rfl
      | _ => cases hs
  | deschedule o a =>
      cases x with
      | run =>
          cases hs
          exact SigKept.stay hI hA hpc ⟨rfl, rfl, rfl, rfl⟩ (.inl rfl) (.inr rfl) (.inr nofun) nofun
      | _ => cases hs
  | descheduled o a =>
      cases x with
      | run =>
          rw [sigStep] at hs
          split_ifs at hs
          cases hs
          exact SigKept.stay hI hA hpc hsame (.inl rfl) (.inr rfl) (.inr nofun) nofun
      | _ => cases hs
  -- `sem_signal`, `cond_signal`, `cond_broadcast`
  | lockSignal o all =>
      cases x with
      | run =>
          obtain ⟨s₁, hs₁, heq⟩ := Option.map_eq_some_iff.mp hs
          cases heq
          split_ifs
          · exact SigKept.lock hI hA hs₁ rfl rfl rfl nofun
          · exact SigKept.lock hI hA hs₁ rfl rfl rfl nofun
      | _ => cases hs
  | raise o =>
      cases x with
      | run =>
          cases hs
          split_ifs
          · exact SigKept.stay hI hA hpc ⟨rfl, rfl, rfl, rfl⟩ (.inr rfl) (.inl rfl) (.inl rfl) nofun
          · exact SigKept.stay hI hA hpc ⟨rfl, rfl, rfl, rfl⟩ (.inr rfl) (.inl rfl) (.inl rfl) nofun
      | _ => cases hs
  | dequeue o all =>
      cases x with
      | run =>
          rw [sigStep] at hs
          cases hq : s.q o with
          | nil =>
              rw [hq] at hs
              cases hs
              exact SigKept.stay hI hA hpc hsame (.inr rfl) (.inl rfl) (.inl rfl) nofun
          | cons first l =>
              rw [hq] at hs
              cases hs
              exact SigKept.dequeue hI hA hpc hq
      | _ => cases hs
  | reject o a w all =>
      cases x with
      | run =>
          cases hs
          exact SigKept.reject hI hA hpc
      | _ => cases hs
  | readTid o a w all =>
      cases x with
      | run =>
          -- `OwnWaiter` is the tid read here: the record is still that of the waiter
          cases hs
          refine SigKept.stay hI hA hpc hsame (.inr rfl) (.inl rfl) (.inl rfl)
            fun o' w' tid all' hp => ?_
          obtain ⟨-, rfl, rfl, -⟩ := SigPc.wake.inj hp
          exact hI.tid a _ (h.told o a _ all rfl).1
      | _ => cases hs
  | wake o w tid all =>
      cases x with
      | run =>
          cases hs
          split_ifs
          · exact SigKept.stay hI hA hpc ⟨rfl, rfl, rfl, rfl⟩ (.inr rfl) (.inl rfl) (.inl rfl) nofun
          · exact SigKept.stay hI hA hpc ⟨rfl, rfl, rfl, rfl⟩ (.inr rfl) (.inl rfl) (.inl rfl) nofun
      | _ => cases hs
  | unlockSignal o =>
      cases x with
      | run =>
          cases hs
          exact SigKept.unlock hI hA (by rw [hpc]; rfl) rfl (.inl rfl) (.inl rfl)
      | _ => cases hs

/-- In a run whose waiters linger the threads are annotated. -/
lemma sigAnnotated {r : WaitObjs O × (ℕ → SigPc O)}
    (h : (sigThreads kind).machine.Reach Lingers r) : Threads.Annotated SigInv SigAssert r := by
  refine Threads.annotated_of_reach ?_ ?_ h
  · rintro _ ⟨count, mem, rfl⟩
    refine ⟨fun _ => .fresh, ⟨nofun, nofun, nofun, fun _ => List.nodup_nil⟩, fun t => ?_⟩
    exact ⟨nofun, nofun, nofun, nofun, nofun, nofun⟩
  · intro s pc g t x s' p' hI hA hG hs
    exact sigStep_kept hI hA hG hs

/-- **Every signal wakes its own waiter**, in every state of a run in which no waiter returns
while a signaler has still to read the tid of its record. -/
theorem ownWaiter_of_lingers {r : WaitObjs O × (ℕ → SigPc O)}
    (h : (sigThreads kind).machine.Reach Lingers r) : OwnWaiter r.2 := by
  obtain ⟨g, -, hA⟩ := sigAnnotated h
  exact fun u => (hA u).own

/-- **Where a waiter does not linger**, it may write to its stack before the signaler reads the
tid, and the signaler then wakes up another thread. -/
theorem not_ownWaiter_of_leaves {r : WaitObjs O × (ℕ → SigPc O)} (h : ¬ Lingers r (t, .run)) :
    ∃ l r', Machine.replay (sigThreads kind).next r l = some r' ∧ ¬ OwnWaiter r'.2 := by
  obtain ⟨s, pc⟩ := r
  unfold Lingers at h
  push Not at h
  obtain ⟨⟨o, a⟩, hlook, hr, u, -, hreads⟩ := h
  dsimp only at hlook hr hreads
  have ht : pc t = .test o a := by
    cases hp : pc t with
    | test o' a' =>
        rw [hp] at hlook
        obtain ⟨rfl, rfl⟩ := Prod.mk.inj (Option.some.inj hlook)
        rfl
    | _ => rw [hp] at hlook; cases hlook
  obtain ⟨o', w, all, hpu⟩ : ∃ o' w all, pc u = .readTid o' a w all := by
    cases hp : pc u with
    | readTid o' b w all =>
        rw [hp] at hreads
        obtain rfl : b = a := hreads
        exact ⟨o', w, all, rfl⟩
    | _ => rw [hp] at hreads; exact hreads.elim
  have hne : u ≠ t := by
    rintro rfl
    rw [ht] at hpu
    cases hpu
  -- the waiter returns and writes, and the signaler reads
  have h1 : (sigThreads kind).next (s, pc) (t, .run) =
      some (s.setLive a none, Function.update pc t .out) := by
    simp [Threads.next, sigThreads, sigStep, ht, hr]
  have h2 : (sigThreads kind).next (s.setLive a none, Function.update pc t .out)
      (t, .write a ⟨w + 1, 0⟩) = some ((s.setLive a none).write a ⟨w + 1, 0⟩,
        Function.update pc t .out) := by
    simp [Threads.next, sigThreads, sigStep, WaitObjs.setLive]
  have h3 : (sigThreads kind).next ((s.setLive a none).write a ⟨w + 1, 0⟩,
      Function.update pc t .out) (u, .run) = some ((s.setLive a none).write a ⟨w + 1, 0⟩,
        Function.update (Function.update pc t .out) u (.wake o' w (w + 1) all)) := by
    simp [Threads.next, sigThreads, sigStep, WaitObjs.write, hne, hpu]
  have hrun : Machine.replay (sigThreads kind).next (s, pc)
      [(t, .run), (t, .write a ⟨w + 1, 0⟩), (u, .run)] =
        some ((s.setLive a none).write a ⟨w + 1, 0⟩,
          Function.update (Function.update pc t .out) u (.wake o' w (w + 1) all)) := by
    rw [Machine.replay_cons, h1, Option.bind_some, Machine.replay_cons, h2, Option.bind_some,
      Machine.replay_cons, h3, Option.bind_some, Machine.replay_nil]
  refine ⟨_, _, hrun, fun h => ?_⟩
  have hown := h u o' w (w + 1) all (Function.update_self ..)
  omega

/-- Thread 1 waits on a semaphore and is descheduled; thread 2 signals, and thread 1 returns. -/
def lingerRun : List (ℕ × SigAct Unit) :=
  [(1, .wait ()), (1, .run), (1, .run), (1, .place 100), (1, .run), (1, .run), (1, .run),
    (1, .run), (1, .run), (2, .signal ()), (2, .run), (2, .run), (2, .run), (2, .run), (2, .run),
    (2, .run), (2, .run), (1, .run), (1, .run)]

/-- Thread 1 comes to its loop when its `reject` is set already, returns and uses its stack. -/
def leaveRun : List (ℕ × SigAct Unit) :=
  [(1, .wait ()), (1, .run), (1, .run), (1, .place 100), (1, .run), (1, .run), (2, .signal ()),
    (2, .run), (2, .run), (2, .run), (2, .run), (1, .run), (1, .write 100 ⟨7, 0⟩), (2, .run)]

/-- The waiter lingers there. -/
theorem ownWaiter_of_lingers_lingerRun : ∃ r : WaitObjs Unit × (ℕ → SigPc Unit),
    Machine.replay (Machine.guarded Lingers (sigThreads fun _ => .semaphore).next)
      (waitInit (fun _ => 0) fun _ => ⟨0, 0⟩, fun _ => .out) lingerRun = some r ∧
      r.2 1 = .out ∧ OwnWaiter r.2 := by
  have hrun : (Machine.replay (Machine.guarded Lingers (sigThreads fun _ => .semaphore).next)
      (waitInit (fun _ => 0) fun _ => ⟨0, 0⟩, fun _ => .out) lingerRun).map (fun r => r.2 1) =
        some .out := by decide +kernel
  rw [Option.map_eq_some_iff] at hrun
  obtain ⟨r, hr, hpc⟩ := hrun
  have hreach : (sigThreads fun _ => .semaphore).machine.Reach Lingers r :=
    Machine.reach_of_guarded (fun _ _ _ h => h) lingerRun (.init ⟨_, _, rfl⟩) hr
  exact ⟨r, hr, hpc, ownWaiter_of_lingers hreach⟩

/-- **A signal that wakes up another thread**: the signaler reads the tid when the waiter has
returned, and calls `make_runnable(7)` for thread 1. -/
theorem not_ownWaiter_leaveRun : ∃ r : WaitObjs Unit × (ℕ → SigPc Unit),
    (sigThreads fun _ => .semaphore).machine.Reachable r ∧ ¬ OwnWaiter r.2 := by
  have hrun : (Machine.replay (sigThreads fun _ => .semaphore).next
      (waitInit (fun _ => 0) fun _ => ⟨0, 0⟩, fun _ => .out) leaveRun).map (fun r => r.2 2) =
        some (.wake () 1 7 false) := by decide +kernel
  rw [Option.map_eq_some_iff] at hrun
  obtain ⟨r, hr, hpc⟩ := hrun
  refine ⟨r, ?_, fun h => ?_⟩
  · exact Machine.reach_of_replay (fun _ _ _ h => h) leaveRun (fun _ _ _ => trivial)
      (.init ⟨_, _, rfl⟩) hr
  · exact absurd (h 2 () 1 7 false hpc) (by decide)

end ShrekOS
