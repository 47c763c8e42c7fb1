/-
The semaphores of `kern/locks/sem.c` and `user/libthread/sem.c` with every step of their own: the
mutex is taken step by step, and the threads are interleaved inside the sections too.

* `SemQueue`: a queue of waiters, with what its operations do;
* `SemData`, `SemPlace`, `semPlaceStep`: a semaphore with the records of its waiters, the places of
  `sem_wait` and `sem_signal`, and the steps between them;
* `semClient`: where they call the mutex;
* `SemSafe`, `semSafe_of_reachable`: **the sections exclude each other, and a semaphore that is
  free agrees with its history**, for any mutex and any queue;
* `kernelSem_safe`: the kernel's semaphores, with its mutex and its queue.

A record is on its waiter's stack, and is anything once the wait has returned. A thread may be made
runnable at any time. Kernel `malloc` succeeds and answers with an address not in use.
-/
import ShrekOS.Lib.Monitors
import ShrekOS.Locks.Mutex
import ShrekOS.Locks.Semaphore

namespace ShrekOS

open Kit Kit.Cmd

/-- A queue of waiters: `enq` is given the answer of `malloc`. -/
structure SemQueue (τ : Type) where
  init : τ
  enq : Ptr → ℕ → τ → Option τ
  deq : τ → Option (Option ℕ × τ)
  Holds : τ → List ℕ → Prop
  init_holds : Holds init []
  enq_holds : ∀ q l n v q', Holds q l → enq n v q = some q' → Holds q' (l ++ [v])
  deq_holds : ∀ q v l, Holds q (v :: l) → ∃ q', deq q = some (some v, q') ∧ Holds q' l

/-- A semaphore without its mutex, the records of the waiters, each named by its thread, and the
threads that are descheduled. The ghost fields are those of `SemState`. -/
structure SemData (τ : Type) where
  count : ℤ
  q : τ
  metadata : ℕ → ThrMetadata
  descheduled : ℕ → Bool
  signals : ℕ
  waits : ℕ
  admitted : ℕ
  dropped : ℕ
  queued : List ℕ
  released : List ℕ

/-- The places of a thread: outside, in `sem_wait`, or in `sem_signal`. -/
inductive SemPlace where
  | out
  | waitLock
  | lower
  | test
  | record
  | enqueue
  | waitUnlock (queued : Bool)
  | look
  | exchange
  | deschedule
  | descheduled
  | signalLock
  | raise
  | check
  | dequeue
  | reject (temp : ℕ)
  | readTid (temp : ℕ)
  | wake (tid : ℕ)
  | signalUnlock
  deriving DecidableEq

/-- The calls of a thread, a write of its own where its record was, a `make_runnable` of its own,
its next step, and the answer of `malloc` in it. -/
inductive SemStepAct where
  | wait
  | signal
  | write (m : ThrMetadata)
  | makeRunnable (tid : ℕ)
  | run
  | node (n : Ptr)

variable {τ : Type}

/-- The record of a thread. -/
def SemData.setMetadata (d : SemData τ) (t : ℕ) (m : ThrMetadata) : SemData τ :=
  { d with metadata := Function.update d.metadata t m }

/-- A write to the `reject` of a record. -/
def SemData.setReject (d : SemData τ) (t : ℕ) (reject : ℤ) : SemData τ :=
  d.setMetadata t { d.metadata t with reject := reject }

/-- A thread is descheduled, or made runnable. -/
def SemData.setDescheduled (d : SemData τ) (t : ℕ) (b : Bool) : SemData τ :=
  { d with descheduled := Function.update d.descheduled t b }

/-- `sem_init`: the stacks hold anything. -/
def semDataInit (Q : SemQueue τ) (count : ℕ) (metadata : ℕ → ThrMetadata)
    (descheduled : ℕ → Bool) : SemData τ where
  count := count
  q := Q.init
  metadata := metadata
  descheduled := descheduled
  signals := 0
  waits := 0
  admitted := 0
  dropped := 0
  queued := []
  released := []

/-- `sem->count` is in the range of an `int`. -/
def intRange (n : ℤ) : Prop := -2 ^ 31 ≤ n ∧ n < 2 ^ 31

instance (n : ℤ) : Decidable (intRange n) := by unfold intRange; infer_instance

/-- The steps of a thread between its calls of the mutex. -/
def semPlaceStep (Q : SemQueue τ) (d : SemData τ) (t : ℕ) :
    SemPlace → SemStepAct → Option (SemData τ × SemPlace)
  | .out, .wait => some (d, .waitLock)
  | .out, .signal => some (d, .signalLock)
  | .out, .write m => some (d.setMetadata t m, .out)
  | .out, .makeRunnable tid => some (d.setDescheduled tid false, .out)
  -- `sem_wait`
  | .lower, .run =>
      if intRange (d.count - 1) then
        some ({ d with count := d.count - 1, waits := d.waits + 1 }, .test)
      else none
  | .test, .run =>
      if d.count < 0 then some (d, .record)
      else some ({ d with admitted := d.admitted + 1 }, .waitUnlock false)
  | .record, .run => some (d.setMetadata t ⟨t, 0⟩, .enqueue)
  | .enqueue, .node n => (Q.enq n t d.q).map fun q =>
      ({ d with q := q, queued := d.queued ++ [t] }, .waitUnlock true)
  | .look, .run => some (d, if (d.metadata t).reject = 0 then .exchange else .out)
  -- `thr_deschedule`
  | .exchange, .run =>
      some (d.setReject t 0, if (d.metadata t).reject = 0 then .deschedule else .look)
  | .deschedule, .run => some (d.setDescheduled t true, .descheduled)
  | .descheduled, .run => if d.descheduled t then none else some (d, .look)
  -- `sem_signal`
  | .raise, .run =>
      if intRange (d.count + 1) then
        some ({ d with count := d.count + 1, signals := d.signals + 1 }, .check)
      else none
  | .check, .run => some (d, if d.count ≤ 0 then .dequeue else .signalUnlock)
  | .dequeue, .run => (Q.deq d.q).map fun r =>
      match r.1 with
      | none => ({ d with q := r.2, dropped := d.dropped + 1 }, .signalUnlock)
      | some temp => ({ d with
          q := r.2
          released := d.released ++ [temp]
          admitted := d.admitted + 1 }, .reject temp)
  | .reject temp, .run => some (d.setReject temp 1, .readTid temp)
  | .readTid temp, .run => some (d, .wake (d.metadata temp).tid)
  | .wake tid, .run => some (d.setDescheduled tid false, .signalUnlock)
  | _, _ => none

/-- The calls of `mutex_lock` and `mutex_unlock`. -/
def SemPlace.call : SemPlace → Option LockCall
  | .waitLock | .signalLock => some .acquire
  | .waitUnlock _ | .signalUnlock => some .release
  | _ => none

/-- The places after them. -/
def SemPlace.next : SemPlace → SemPlace
  | .waitLock => .lower
  | .signalLock => .raise
  | .waitUnlock true => .look
  | _ => .out

/-- The places between them. -/
def SemPlace.Inside : SemPlace → Prop
  | .lower | .test | .record | .enqueue | .raise | .check | .dequeue | .reject _ | .readTid _
  | .wake _ => True
  | _ => False

/-- The places of a waiter, from the time that it is in the queue. -/
def SemPlace.Waiting : SemPlace → Prop
  | .waitUnlock queued => queued = true
  | .look | .exchange | .deschedule | .descheduled => True
  | _ => False

variable {Q : SemQueue τ} {d d' : SemData τ} {t : ℕ} {k k' : SemPlace} {a : SemStepAct}

/-- A step outside of the sections writes no more than the thread's own record, and who is
descheduled; a waiter that has not been signalled goes on to wait. -/
lemma semPlaceStep_outside (hs : semPlaceStep Q d t k a = some (d', k')) (hk : ¬ k.Inside) :
    ¬ k'.Inside ∧ ∃ m f, d' = { d with
        metadata := Function.update d.metadata t m
        descheduled := f } ∧
      (k.Waiting → (d.metadata t).reject = 0 → m.reject = 0 ∧ k'.Waiting) := by
  have hsame : d = { d with metadata := Function.update d.metadata t (d.metadata t) } := by
    rw [Function.update_eq_self]
  unfold semPlaceStep at hs
  split at hs
  case h_1 | h_2 =>
    obtain ⟨rfl, rfl⟩ := Prod.mk.inj (Option.some.inj hs)
    exact ⟨id, d.metadata t, d.descheduled, hsame, False.elim⟩
  case h_3 m =>
    obtain ⟨rfl, rfl⟩ := Prod.mk.inj (Option.some.inj hs)
    exact ⟨id, m, d.descheduled, rfl, False.elim⟩
  case h_4 tid =>
    obtain ⟨rfl, rfl⟩ := Prod.mk.inj (Option.some.inj hs)
    refine ⟨id, d.metadata t, Function.update d.descheduled tid false, ?_, False.elim⟩
    rw [Function.update_eq_self]
    rfl
  case h_9 =>
    -- the test of the loop
    obtain ⟨rfl, rfl⟩ := Prod.mk.inj (Option.some.inj hs)
    refine ⟨by split_ifs <;> exact id, d.metadata t, d.descheduled, hsame, fun _ hreject => ?_⟩
    rw [if_pos hreject]
    exact ⟨hreject, trivial⟩
  case h_10 =>
    obtain ⟨rfl, rfl⟩ := Prod.mk.inj (Option.some.inj hs)
    refine ⟨by split_ifs <;> exact id, { d.metadata t with reject := 0 }, d.descheduled, rfl,
      fun _ hreject => ?_⟩
    rw [if_pos hreject]
    exact ⟨rfl, trivial⟩
  case h_11 =>
    obtain ⟨rfl, rfl⟩ := Prod.mk.inj (Option.some.inj hs)
    refine ⟨id, d.metadata t, Function.update d.descheduled t true, ?_, fun _ hreject =>
      ⟨hreject, trivial⟩⟩
    rw [Function.update_eq_self]
    rfl
  case h_12 =>
    split_ifs at hs
    obtain ⟨rfl, rfl⟩ := Prod.mk.inj (Option.some.inj hs)
    exact ⟨id, d.metadata t, d.descheduled, hsame, fun _ hreject => ⟨hreject, trivial⟩⟩
  case h_19 => cases hs
  all_goals exact absurd trivial hk

/-- The place of a thread that is about to queue its record. -/
def SemPlace.Queues : SemPlace → Prop
  | .enqueue => True
  | _ => False

/-- The threads of a semaphore, with the calls of their mutex. -/
def semClient (Q : SemQueue τ) : Client (SemData τ) SemPlace SemStepAct where
  start := .out
  step := semPlaceStep Q
  call := SemPlace.call
  next := SemPlace.next
  Holds := SemPlace.Inside
  holds_start := id
  holds_call k hk := by cases k <;> first | rfl | exact hk.elim
  holds_release k hk := by
    cases k with
    | waitUnlock queued => cases queued <;> exact id
    | signalUnlock => exact id
    | _ => cases hk
  holds_step _ _ _ _ _ _ hs hk' := by_contra fun hk => (semPlaceStep_outside hs hk).1 hk'

/-! ### What the threads know -/

/-- The waiters in the queue, and one that a signaler has taken off and not yet rejected. -/
structure SemGhost where
  waiters : List ℕ
  taken : Option ℕ

/-- The waiters that have not been signalled. -/
def SemGhost.unsignalled (g : SemGhost) : List ℕ := g.taken.toList ++ g.waiters

/-- The queue and the history agree, also in a section. -/
structure SemHistory (Q : SemQueue τ) (c : ℕ) (d : SemData τ) (g : SemGhost) : Prop where
  queue : Q.Holds d.q g.waiters
  count : d.count = c + d.signals - d.waits
  dropped : d.dropped = 0
  order : d.queued = d.released ++ g.waiters
  nodup : g.unsignalled.Nodup

/-- The count and the queue agree, but for what a section has added to the count, and the
threads that it has neither admitted nor queued. -/
structure SemBalance (d : SemData τ) (g : SemGhost) (added : ℤ) (pending : ℕ) : Prop where
  length : (g.waiters.length : ℤ) = max 0 (added - d.count)
  admitted : d.admitted + g.waiters.length + pending = d.waits

/-- What a section has done at each of its places; outside of them, it has done everything. -/
def SemAt (d : SemData τ) (g : SemGhost) : SemPlace → Prop
  | .test => g.taken = none ∧ SemBalance d g (-1) 1
  | .record | .enqueue => g.taken = none ∧ SemBalance d g (-1) 1 ∧ d.count < 0
  | .check => g.taken = none ∧ SemBalance d g 1 0
  | .dequeue => g.taken = none ∧ SemBalance d g 1 0 ∧ d.count ≤ 0
  | .reject temp => g.taken = some temp ∧ SemBalance d g 0 0
  | _ => g.taken = none ∧ SemBalance d g 0 0

/-- A thread that has not been signalled is waiting, and its record says so. -/
structure SemKnows (d : SemData τ) (g : SemGhost) (t : ℕ) (k : SemPlace) : Prop where
  waiting : t ∈ g.unsignalled → k.Waiting ∧ (d.metadata t).reject = 0
  record : k.Queues → (d.metadata t).reject = 0

/-- The assertions of a semaphore with an initial count. -/
def semAssertions (Q : SemQueue τ) (c : ℕ) : Assertions (SemData τ) SemPlace SemGhost where
  R d g := SemHistory Q c d g ∧ SemAt d g .out
  P d g _ k := SemHistory Q c d g ∧ SemAt d g k
  Q := SemKnows

variable {c : ℕ} {g g' : SemGhost} {u : ℕ} {pc : ℕ → SemPlace}

/-- A thread that does not wait has no record in the queue. -/
lemma SemKnows.not_mem (h : SemKnows d g t k) (hk : ¬ k.Waiting) : t ∉ g.unsignalled :=
  fun hmem => hk (h.waiting hmem).1

/-- Such a thread goes anywhere. -/
lemma SemKnows.fresh (h : t ∉ g.unsignalled) (hk : ¬ k.Queues) : SemKnows d g t k :=
  ⟨fun hmem => absurd hmem h, fun hqueues => absurd hqueues hk⟩

/-- A thread whose record is not written to, while no other waiter is added. -/
lemma SemKnows.frame (h : SemKnows d g t k) (hmeta : d'.metadata t = d.metadata t)
    (hmem : t ∈ g'.unsignalled → t ∈ g.unsignalled) : SemKnows d' g' t k :=
  ⟨fun ht => hmeta ▸ h.waiting (hmem ht), fun hqueues => hmeta ▸ h.record hqueues⟩

lemma SemPlace.Queues.inside (hk : k.Queues) : k.Inside := by
  cases k <;> first | exact hk.elim | trivial

lemma SemPlace.Inside.not_waiting (hk : k.Inside) : ¬ k.Waiting := by
  cases k <;> first | exact hk.elim | exact id

/-! ### The steps -/

/-- What a step in a section establishes. -/
def SemStepKept (Q : SemQueue τ) (c : ℕ) (pc : ℕ → SemPlace) (t : ℕ) (d' : SemData τ)
    (k' : SemPlace) : Prop :=
  ∃ g', SemHistory Q c d' g' ∧ SemAt d' g' k' ∧ SemKnows d' g' t k' ∧
    ∀ u, u ≠ t → SemKnows d' g' u (pc u)

/-- A step that leaves the queue and the records. -/
lemma SemStepKept.same (hQ : ∀ u, SemKnows d g u (pc u)) (hk : (pc t).Inside)
    (hhist : SemHistory Q c d' g) (hat : SemAt d' g k') (hmeta : d'.metadata = d.metadata)
    (hk' : ¬ k'.Queues) : SemStepKept Q c pc t d' k' :=
  ⟨g, hhist, hat, SemKnows.fresh ((hQ t).not_mem hk.not_waiting) hk',
    fun u _ => (hQ u).frame (congrFun hmeta u) id⟩

/-- `sem->count--`. -/
lemma semStepKept_lower (hQ : ∀ u, SemKnows d g u (pc u)) (hpc : pc t = .lower)
    (hhist : SemHistory Q c d g) (hat : SemAt d g .lower) :
    SemStepKept Q c pc t { d with count := d.count - 1, waits := d.waits + 1 } .test := by
  obtain ⟨htaken, hbal⟩ := hat
  have hlength := hbal.length
  have hadmitted := hbal.admitted
  have hcount := hhist.count
  refine SemStepKept.same hQ (by rw [hpc]; trivial) ⟨hhist.queue, ?_, hhist.dropped, hhist.order,
    hhist.nodup⟩ ⟨htaken, ?_, ?_⟩ rfl id
  · change d.count - 1 = c + d.signals - ((d.waits + 1 : ℕ) : ℤ)
    omega
  · change (g.waiters.length : ℤ) = max 0 (-1 - (d.count - 1))
    omega
  · change d.admitted + g.waiters.length + 1 = d.waits + 1
    omega

/-- `sem->count++`. -/
lemma semStepKept_raise (hQ : ∀ u, SemKnows d g u (pc u)) (hpc : pc t = .raise)
    (hhist : SemHistory Q c d g) (hat : SemAt d g .raise) :
    SemStepKept Q c pc t { d with count := d.count + 1, signals := d.signals + 1 } .check := by
  obtain ⟨htaken, hbal⟩ := hat
  have hlength := hbal.length
  have hcount := hhist.count
  refine SemStepKept.same hQ (by rw [hpc]; trivial) ⟨hhist.queue, ?_, hhist.dropped, hhist.order,
    hhist.nodup⟩ ⟨htaken, ?_, hbal.admitted⟩ rfl id
  · change d.count + 1 = c + ((d.signals + 1 : ℕ) : ℤ) - d.waits
    omega
  · change (g.waiters.length : ℤ) = max 0 (1 - (d.count + 1))
    omega

/-- A resource is available to the thread. -/
lemma semStepKept_admit (hQ : ∀ u, SemKnows d g u (pc u)) (hpc : pc t = .test)
    (hhist : SemHistory Q c d g) (hat : SemAt d g .test) (hcount : ¬ d.count < 0) :
    SemStepKept Q c pc t { d with admitted := d.admitted + 1 } (.waitUnlock false) := by
  obtain ⟨htaken, hbal⟩ := hat
  have hlength := hbal.length
  have hadmitted := hbal.admitted
  refine SemStepKept.same hQ (by rw [hpc]; trivial) ⟨hhist.queue, hhist.count, hhist.dropped,
    hhist.order, hhist.nodup⟩ ⟨htaken, ?_, ?_⟩ rfl id
  · change (g.waiters.length : ℤ) = max 0 (0 - d.count)
    omega
  · change d.admitted + 1 + g.waiters.length + 0 = d.waits
    omega

/-- The thread sets up its record. -/
lemma semStepKept_record (hQ : ∀ u, SemKnows d g u (pc u)) (hpc : pc t = .record)
    (hhist : SemHistory Q c d g) (hat : SemAt d g .record) :
    SemStepKept Q c pc t (d.setMetadata t ⟨t, 0⟩) .enqueue := by
  have hnot : t ∉ g.unsignalled := (hQ t).not_mem (by rw [hpc]; exact id)
  refine ⟨g, ⟨hhist.queue, hhist.count, hhist.dropped, hhist.order, hhist.nodup⟩,
    ⟨hat.1, ⟨hat.2.1.length, hat.2.1.admitted⟩, hat.2.2⟩,
    ⟨fun hmem => absurd hmem hnot, fun _ => ?_⟩,
    fun u hu => (hQ u).frame (Function.update_of_ne hu _ _) id⟩
  change (Function.update d.metadata t ⟨t, 0⟩ t).reject = 0
  rw [Function.update_self]

/-- The thread is queued. -/
lemma semStepKept_enqueue (hQ : ∀ u, SemKnows d g u (pc u)) (hpc : pc t = .enqueue)
    (hhist : SemHistory Q c d g) (hat : SemAt d g .enqueue) {n : Ptr} {q : τ}
    (hq : Q.enq n t d.q = some q) :
    SemStepKept Q c pc t { d with q := q, queued := d.queued ++ [t] } (.waitUnlock true) := by
  obtain ⟨htaken, hbal, hcount⟩ := hat
  have hnot : t ∉ g.unsignalled := (hQ t).not_mem (by rw [hpc]; exact id)
  have hlength := hbal.length
  have hadmitted := hbal.admitted
  have hself : SemGhost.unsignalled ⟨g.waiters ++ [t], none⟩ = g.unsignalled ++ [t] := by
    rw [SemGhost.unsignalled, SemGhost.unsignalled, htaken]
    rfl
  have hnew : (g.waiters ++ [t]).length = g.waiters.length + 1 := by
    rw [List.length_append, List.length_singleton]
  refine ⟨⟨g.waiters ++ [t], none⟩, ⟨Q.enq_holds _ _ _ _ _ hhist.queue hq, hhist.count,
    hhist.dropped, ?_, ?_⟩, ⟨rfl, ?_, ?_⟩,
    ⟨fun _ => ⟨rfl, (hQ t).record (by rw [hpc]; trivial)⟩, False.elim⟩,
    fun u hu => (hQ u).frame rfl fun hmem => ?_⟩
  · change d.queued ++ [t] = d.released ++ (g.waiters ++ [t])
    rw [hhist.order, List.append_assoc]
  · rw [hself]
    exact List.nodup_append.mpr ⟨hhist.nodup, List.nodup_singleton t, fun v hv w hw => by
      rw [List.mem_singleton.mp hw]
      exact ne_of_mem_of_not_mem hv hnot⟩
  · change ((g.waiters ++ [t]).length : ℤ) = max 0 (0 - d.count)
    rw [hnew]
    omega
  · change d.admitted + (g.waiters ++ [t]).length + 0 = d.waits
    rw [hnew]
    omega
  · rw [hself, List.mem_append, List.mem_singleton] at hmem
    exact hmem.resolve_right hu

/-- The queue has a waiter for the signaler, the first one. -/
lemma semStepKept_dequeue (hQ : ∀ u, SemKnows d g u (pc u)) (hpc : pc t = .dequeue)
    (hhist : SemHistory Q c d g) (hat : SemAt d g .dequeue) :
    ∃ temp q, Q.deq d.q = some (some temp, q) ∧
      SemStepKept Q c pc t { d with
        q := q
        released := d.released ++ [temp]
        admitted := d.admitted + 1 } (.reject temp) := by
  obtain ⟨htaken, hbal, hcount⟩ := hat
  have hnot : t ∉ g.unsignalled := (hQ t).not_mem (by rw [hpc]; exact id)
  have hlength := hbal.length
  have hadmitted := hbal.admitted
  have horder := hhist.order
  have hqueue := hhist.queue
  cases hw : g.waiters with
  | nil =>
      rw [hw, List.length_nil] at hlength
      omega
  | cons temp waiters =>
      rw [hw] at hqueue horder
      have hnew : g.waiters.length = waiters.length + 1 := by rw [hw, List.length_cons]
      have hself : SemGhost.unsignalled ⟨waiters, some temp⟩ = g.unsignalled := by
        rw [SemGhost.unsignalled, SemGhost.unsignalled, htaken, hw]
        rfl
      obtain ⟨q, hq, hholds⟩ := Q.deq_holds _ _ _ hqueue
      refine ⟨temp, q, hq, ⟨waiters, some temp⟩, ⟨hholds, hhist.count, hhist.dropped, ?_, ?_⟩,
        ⟨rfl, ?_, ?_⟩, SemKnows.fresh (by rw [hself]; exact hnot) id,
        fun u _ => (hQ u).frame rfl fun hmem => hself ▸ hmem⟩
      · change d.queued = d.released ++ [temp] ++ waiters
        rw [horder, List.append_assoc]
        rfl
      · rw [hself]
        exact hhist.nodup
      · change (waiters.length : ℤ) = max 0 (0 - d.count)
        omega
      · change d.admitted + 1 + waiters.length + 0 = d.waits
        omega

/-- `temp->reject = 1`: the waiter is signalled. -/
lemma semStepKept_reject {temp : ℕ} (hQ : ∀ u, SemKnows d g u (pc u)) (hpc : pc t = .reject temp)
    (hhist : SemHistory Q c d g) (hat : SemAt d g (.reject temp)) :
    SemStepKept Q c pc t (d.setReject temp 1) (.readTid temp) := by
  obtain ⟨htaken, hbal⟩ := hat
  have hnot : t ∉ g.unsignalled := (hQ t).not_mem (by rw [hpc]; exact id)
  have hself : g.unsignalled = temp :: SemGhost.unsignalled ⟨g.waiters, none⟩ := by
    rw [SemGhost.unsignalled, SemGhost.unsignalled, htaken]
    rfl
  have hnodup := hhist.nodup
  rw [hself, List.nodup_cons] at hnodup
  have hless : ∀ u, u ∈ SemGhost.unsignalled ⟨g.waiters, none⟩ → u ∈ g.unsignalled := by
    intro u hmem
    rw [hself]
    exact List.mem_cons_of_mem _ hmem
  refine ⟨⟨g.waiters, none⟩, ⟨hhist.queue, hhist.count, hhist.dropped, hhist.order, hnodup.2⟩,
    ⟨rfl, hbal.length, hbal.admitted⟩, SemKnows.fresh (fun hmem => hnot (hless t hmem)) id,
    fun u hu => ?_⟩
  by_cases htemp : u = temp
  · -- the waiter is not at the place where it queues its record
    subst htemp
    have hwaiting := ((hQ u).waiting (by rw [hself]; exact List.mem_cons_self)).1
    exact SemKnows.fresh hnodup.1 fun hqueues => hqueues.inside.not_waiting hwaiting
  · exact (hQ u).frame (Function.update_of_ne htemp _ _) (hless u)

/-- **A step in a section.** -/
lemma semPlaceStep_within (hQ : ∀ u, SemKnows d g u (pc u)) (hk : (pc t).Inside)
    (hhist : SemHistory Q c d g) (hat : SemAt d g (pc t))
    (hs : semPlaceStep Q d t (pc t) a = some (d', k')) : SemStepKept Q c pc t d' k' := by
  have hinside := hk
  generalize hpc : pc t = k at hk hat hs
  unfold semPlaceStep at hs
  split at hs
  case h_5 =>
    split_ifs at hs
    obtain ⟨rfl, rfl⟩ := Prod.mk.inj (Option.some.inj hs)
    exact semStepKept_lower hQ hpc hhist hat
  case h_6 =>
    split_ifs at hs with hcount
    · obtain ⟨rfl, rfl⟩ := Prod.mk.inj (Option.some.inj hs)
      exact SemStepKept.same hQ hinside hhist ⟨hat.1, hat.2, hcount⟩ rfl id
    · obtain ⟨rfl, rfl⟩ := Prod.mk.inj (Option.some.inj hs)
      exact semStepKept_admit hQ hpc hhist hat hcount
  case h_7 =>
    obtain ⟨rfl, rfl⟩ := Prod.mk.inj (Option.some.inj hs)
    exact semStepKept_record hQ hpc hhist hat
  case h_8 n =>
    rw [Option.map_eq_some_iff] at hs
    obtain ⟨q, hq, heq⟩ := hs
    obtain ⟨rfl, rfl⟩ := Prod.mk.inj heq
    exact semStepKept_enqueue hQ hpc hhist hat hq
  case h_13 =>
    split_ifs at hs
    obtain ⟨rfl, rfl⟩ := Prod.mk.inj (Option.some.inj hs)
    exact semStepKept_raise hQ hpc hhist hat
  case h_14 =>
    obtain ⟨rfl, rfl⟩ := Prod.mk.inj (Option.some.inj hs)
    have hlength := hat.2.length
    split_ifs with hcount
    · exact SemStepKept.same hQ hinside hhist ⟨hat.1, hat.2, hcount⟩ rfl id
    · exact SemStepKept.same hQ hinside hhist ⟨hat.1, by omega, hat.2.admitted⟩ rfl id
  case h_15 =>
    obtain ⟨temp, q, hq, hkept⟩ := semStepKept_dequeue hQ hpc hhist hat
    rw [hq] at hs
    obtain ⟨rfl, rfl⟩ := Prod.mk.inj (Option.some.inj hs)
    exact hkept
  case h_16 temp =>
    obtain ⟨rfl, rfl⟩ := Prod.mk.inj (Option.some.inj hs)
    exact semStepKept_reject hQ hpc hhist hat
  case h_17 =>
    obtain ⟨rfl, rfl⟩ := Prod.mk.inj (Option.some.inj hs)
    exact SemStepKept.same hQ hinside hhist hat rfl id
  case h_18 tid =>
    -- `thr_make_runnable`, of any thread
    obtain ⟨rfl, rfl⟩ := Prod.mk.inj (Option.some.inj hs)
    exact SemStepKept.same hQ hinside
      ⟨hhist.queue, hhist.count, hhist.dropped, hhist.order, hhist.nodup⟩
      ⟨hat.1, hat.2.length, hat.2.admitted⟩ rfl id
  case h_19 => cases hs
  all_goals exact hk.elim

/-- A place outside of the sections. -/
lemma SemAt.out (h : SemAt d g k) (hk : ¬ k.Inside) : SemAt d g .out := by
  cases k <;> first | exact h | exact absurd trivial hk

/-- The queue, the count and the history do not depend on the records. -/
lemma SemAt.frame (h : SemAt d g k) (m : ℕ → ThrMetadata) (f : ℕ → Bool) :
    SemAt { d with metadata := m, descheduled := f } g k := by
  have hbal : ∀ added pending, SemBalance d g added pending →
      SemBalance { d with metadata := m, descheduled := f } g added pending :=
    fun _ _ hb => ⟨hb.length, hb.admitted⟩
  cases k
  case test | check | reject => exact ⟨h.1, hbal _ _ h.2⟩
  case record | enqueue | dequeue => exact ⟨h.1, hbal _ _ h.2.1, h.2.2⟩
  all_goals exact ⟨h.1, hbal _ _ h.2⟩

/-- The thread's own knowledge, after a step outside of the sections, and that of the others. -/
lemma semKnows_outside (hQ : ∀ u, SemKnows d g u (pc u)) (hk : ¬ (pc t).Inside)
    (hs : semPlaceStep Q d t (pc t) a = some (d', k')) :
    ∃ m f, d' = { d with metadata := m, descheduled := f } ∧ SemKnows d' g t k' ∧
      ∀ u, u ≠ t → SemKnows d' g u (pc u) := by
  obtain ⟨hk', m, f, rfl, hwaits⟩ := semPlaceStep_outside hs hk
  refine ⟨_, _, rfl, ⟨fun hmem => ?_, fun hqueues => ?_⟩, fun u hu =>
    (hQ u).frame (Function.update_of_ne hu _ _) id⟩
  · obtain ⟨hwaiting, hreject⟩ := (hQ t).waiting hmem
    obtain ⟨hm, hwaiting'⟩ := hwaits hwaiting hreject
    refine ⟨hwaiting', ?_⟩
    change (Function.update d.metadata t m t).reject = 0
    rw [Function.update_self]
    exact hm
  · exact absurd hqueues.inside hk'

/-- **The obligations of the threads of a semaphore.** -/
theorem semClient_obeys (Q : SemQueue τ) (c : ℕ) : Obeys (semClient Q) (semAssertions Q c) where
  acquire d g t k hcall hR hQ := by
    obtain ⟨hhist, hat⟩ := hR
    cases k with
    | waitLock => exact ⟨fun _ => ⟨hhist, hat⟩, SemKnows.fresh (hQ.not_mem id) id⟩
    | signalLock => exact ⟨fun _ => ⟨hhist, hat⟩, SemKnows.fresh (hQ.not_mem id) id⟩
    | _ => cases hcall
  release d g t k hcall hQ := by
    cases k with
    | waitUnlock queued =>
        cases queued with
        | false => exact SemKnows.fresh (hQ.not_mem Bool.false_ne_true) id
        | true => exact ⟨fun hmem => ⟨trivial, (hQ.waiting hmem).2⟩, False.elim⟩
    | signalUnlock => exact SemKnows.fresh (hQ.not_mem id) id
    | _ => cases hcall
  within d g pc t a d' k' hQ hk hP hs := by
    obtain ⟨g', hhist, hat, hown, hother⟩ := semPlaceStep_within hQ hk hP.1 hP.2 hs
    exact ⟨g', fun _ => ⟨hhist, hat⟩, fun hk' => ⟨hhist, hat.out hk'⟩, hown, hother⟩
  outside d g pc t a d' k' hQ hk hs := by
    obtain ⟨m, f, rfl, hown, hother⟩ := semKnows_outside hQ hk hs
    have hkept : SemHistory Q c d g →
        SemHistory Q c { d with metadata := m, descheduled := f } g :=
      fun h => ⟨h.queue, h.count, h.dropped, h.order, h.nodup⟩
    exact ⟨g, fun hR => ⟨hkept hR.1, hR.2.frame m f⟩,
      fun u _ hP => ⟨hkept hP.1, hP.2.frame m f⟩, hown, hother⟩

/-! ### Runs -/

/-- A semaphore with an initial count, its waiters and its signalers. -/
structure SemSafe (Q : SemQueue τ) (c : ℕ) (d : SemData τ) (k : ℕ → SemPlace) : Prop where
  /-- at most one thread is between `mutex_lock` and `mutex_unlock` -/
  exclusive : ∀ t u, (k t).Inside → (k u).Inside → t = u
  count : d.count = c + d.signals - d.waits
  /-- no more waits are admitted than there are resources -/
  admitted : d.admitted ≤ c + d.signals
  dropped : d.dropped = 0
  /-- waiters are released in the order in which they were queued -/
  order : ∃ waiters, Q.Holds d.q waiters ∧ d.queued = d.released ++ waiters ∧
    (∀ t ∈ waiters, (k t).Waiting) ∧ ((∀ t, ¬ (k t).Inside) →
      (waiters.length : ℤ) = max 0 (-d.count) ∧ d.admitted + waiters.length = d.waits)
  /-- a signaler that takes a waiter off the queue finds one -/
  found : ∀ t, k t = .dequeue → ∃ temp q, Q.deq d.q = some (some temp, q)
  /-- a signaler writes to the record of a thread that waits -/
  rejects : ∀ t temp, k t = .reject temp → (k temp).Waiting

/-- The threads of a semaphore. -/
def semThreads {σ π ι : Type} [DecidableEq π] (L : Lock σ π ι) (Q : SemQueue τ) (c : ℕ) :
    Threads (σ × SemData τ) (π × SemPlace) (ι ⊕ SemStepAct) :=
  monitor L (semClient Q) fun d => ∃ metadata descheduled,
    d = semDataInit Q c metadata descheduled

/-- Whatever a section has done so far, no more waits are admitted than there are resources. -/
lemma SemAt.admitted_le (hhist : SemHistory Q c d g) (hat : SemAt d g k) :
    d.admitted ≤ c + d.signals := by
  have hbal : ∃ (added : ℤ) (pending : ℕ), 0 ≤ added + pending ∧ SemBalance d g added pending := by
    cases k
    case test => exact ⟨-1, 1, le_rfl, hat.2⟩
    case record | enqueue => exact ⟨-1, 1, le_rfl, hat.2.1⟩
    case check => exact ⟨1, 0, zero_le_one, hat.2⟩
    case dequeue => exact ⟨1, 0, zero_le_one, hat.2.1⟩
    all_goals exact ⟨0, 0, le_rfl, hat.2⟩
  obtain ⟨added, pending, hle, hlength, hadmitted⟩ := hbal
  have hcount := hhist.count
  omega

/-- The assertions say that a semaphore is safe. -/
lemma semSafe_of_monitored (hexclusive : ∀ t u, (pc t).Inside → (pc u).Inside → t = u)
    (h : Monitored (semClient Q) (semAssertions Q c) d pc g) : SemSafe Q c d pc := by
  have hany : SemHistory Q c d g ∧ ∃ k, SemAt d g k := by
    by_cases hfree : ∀ t, ¬ (pc t).Inside
    · obtain ⟨hhist, hat⟩ := h.free hfree
      exact ⟨hhist, .out, hat⟩
    · push Not at hfree
      obtain ⟨t, ht⟩ := hfree
      obtain ⟨hhist, hat⟩ := h.inside t ht
      exact ⟨hhist, pc t, hat⟩
  obtain ⟨hhist, k, hat⟩ := hany
  have hwaiting : ∀ t ∈ g.unsignalled, (pc t).Waiting := fun t ht => ((h.every t).waiting ht).1
  refine ⟨hexclusive, hhist.count, SemAt.admitted_le hhist hat, hhist.dropped,
    ⟨g.waiters, hhist.queue, hhist.order, fun t ht => hwaiting t (List.mem_append_right _ ht),
    fun hfree => ?_⟩, fun t ht => ?_, fun t temp ht => ?_⟩
  · obtain ⟨-, -, hlength, hadmitted⟩ := h.free hfree
    rw [zero_sub] at hlength
    exact ⟨hlength, hadmitted⟩
  · obtain ⟨hhist', hat'⟩ := h.inside t (by rw [ht]; trivial)
    rw [ht] at hat'
    obtain ⟨temp, q, hq, -⟩ := semStepKept_dequeue h.every ht hhist' hat'
    exact ⟨temp, q, hq⟩
  · obtain ⟨-, hat'⟩ := h.inside t (by rw [ht]; trivial)
    rw [ht] at hat'
    refine hwaiting temp ?_
    rw [SemGhost.unsignalled, hat'.1]
    exact List.mem_cons_self

/-- **Every run of a semaphore is safe**, whatever its mutex and its queue are. -/
theorem semSafe_of_reachable {σ π ι : Type} [DecidableEq π] {L : Lock σ π ι}
    {s : (σ × SemData τ) × (ℕ → π × SemPlace)}
    (h : (semThreads L Q c).machine.Reachable s) : SemSafe Q c s.1.2 fun t => (s.2 t).2 := by
  have hinv := monitored_of_reachable (semClient_obeys Q c) ?_ h
  · obtain ⟨g, hmon⟩ := hinv.monitored
    refine semSafe_of_monitored (fun t u ht hu => ?_) hmon
    refine (hinv.exclusive ?_ hu).symm
    rw [hinv.inside t ht]
    exact L.between_inside
  · rintro d ⟨metadata, descheduled, rfl⟩
    refine ⟨⟨[], none⟩, ⟨⟨Q.init_holds, ?_, rfl, rfl, List.nodup_nil⟩, rfl, ?_, rfl⟩,
      fun t => SemKnows.fresh List.not_mem_nil id⟩
    · change (c : ℤ) = c + ((0 : ℕ) : ℤ) - ((0 : ℕ) : ℤ)
      omega
    · change ((0 : ℕ) : ℤ) = max 0 (0 - (c : ℤ))
      omega

/-! ### The kernel's semaphores -/

/-- `kern/locks/mutex.c`. -/
def kernelMutex : Lock MutexT MutexPc MutexAct where
  init s := s = mutexInit
  step := mutexStep
  out := .out
  inside := .inside
  Between := MutexPc.Between
  Inv := MutexInv
  Assert := MutexAssert
  between_inside := trivial
  inv_init := by
    rintro _ rfl
    exact ⟨none, ⟨rfl, .inl rfl⟩, fun t => ⟨iff_of_false (Option.some_ne_none t).symm id,
      False.elim, fun _ hcur => by cases hcur⟩⟩
  between _ _ _ _ h := h.between
  kept _ _ _ _ _ _ _ hI hA hs := mutexStep_kept hI hA hs

/-- `kern/data_structures/queue.c`; an operation that faults takes no step. -/
def kernelQueue : SemQueue LlState where
  init := ⟨⟨fun _ => none, fun _ => none, fun _ => none⟩, llInit⟩
  enq n v q :=
    match queueEnq (some n) v q with
    | (.ok _, q') => some q'
    | (.error _, _) => none
  deq q :=
    match queueDeq q with
    | (.ok r, q') => some (r, q')
    | (.error _, _) => none
  Holds q l := IsQueue q.nodes q.ll l
  init_holds := isQueue_init _
  enq_holds q l n v q' h hq := by
    have hspec := queueEnq_spec (v := v) h n
    unfold wlp wp at hspec
    split at hq
    next hrun =>
      rw [hrun] at hspec
      obtain rfl := Option.some.inj hq
      exact hspec.2
    next => cases hq
  deq_holds q v l h := by
    have hspec := queueDeq_spec (E := fun _ _ => False) h
    unfold wp at hspec
    rcases hrun : queueDeq q with ⟨_ | r, q'⟩
    · rw [hrun] at hspec
      exact hspec.elim
    · rw [hrun] at hspec
      obtain ⟨rfl, hholds⟩ := hspec
      exact ⟨q', rfl, hholds⟩

/-- **The kernel's semaphores** are safe in every run, with the steps of their mutex and of all
sections interleaved. -/
theorem kernelSem_safe {c : ℕ} {s : (MutexT × SemData LlState) × (ℕ → MutexPc × SemPlace)}
    (h : (semThreads kernelMutex kernelQueue c).machine.Reachable s) :
    SemSafe kernelQueue c s.1.2 fun t => (s.2 t).2 :=
  semSafe_of_reachable h

/-- Thread 0 waits on a semaphore without resources, and thread 1, which signals, comes upon its
section and spins; then it takes thread 0 off the queue. -/
def semStepsRun : List (ℕ × (MutexAct ⊕ SemStepAct)) :=
  [(0, .inr .wait), (0, .inl .lock), (0, .inl .run), (0, .inl .run), (0, .inl .run),
    (0, .inr .run), (1, .inr .signal), (1, .inl .lock), (1, .inl .run), (0, .inr .run),
    (1, .inl .run), (1, .inl .run), (0, .inr .run), (0, .inr (.node 5)), (1, .inl .run),
    (0, .inl .unlock), (0, .inl .run), (1, .inl .run), (0, .inl .run), (0, .inr .run),
    (1, .inl .run), (1, .inl .run), (1, .inl .run), (1, .inl .run), (1, .inr .run),
    (1, .inr .run), (0, .inr .run), (1, .inr .run), (0, .inr .run)]

/-- Both threads are outside. -/
def semStepsStart : (MutexT × SemData LlState) × (ℕ → MutexPc × SemPlace) :=
  ((mutexInit, semDataInit kernelQueue 0 (fun _ => ⟨0, 0⟩) fun _ => false), fun _ => (.out, .out))

/-- Thread 0 is descheduled, and thread 1 is about to reject it. -/
theorem kernelSem_safe_semStepsRun :
    ∃ s, Machine.replay (semThreads kernelMutex kernelQueue 0).next semStepsStart semStepsRun =
      some s ∧ (s.2 0).2 = .descheduled ∧ (s.2 1).2 = .reject 0 ∧ s.1.2.released = [0] ∧
      SemSafe kernelQueue 0 s.1.2 fun t => (s.2 t).2 := by
  have hrun : (Machine.replay (semThreads kernelMutex kernelQueue 0).next semStepsStart
      semStepsRun).map (fun s => ((s.2 0).2, (s.2 1).2, s.1.2.released)) =
        some (.descheduled, .reject 0, [0]) := by
    decide +kernel
  rw [Option.map_eq_some_iff] at hrun
  obtain ⟨s, hs, heq⟩ := hrun
  obtain ⟨h0, heq⟩ := Prod.mk.inj heq
  obtain ⟨h1, hreleased⟩ := Prod.mk.inj heq
  have hinit : (semThreads kernelMutex kernelQueue 0).machine.init semStepsStart :=
    ⟨rfl, ⟨_, _, rfl⟩, rfl⟩
  refine ⟨s, hs, h0, h1, hreleased, kernelSem_safe ?_⟩
  exact Machine.reach_of_replay (fun _ _ _ h => h) semStepsRun (fun _ _ _ => trivial)
    (.init hinit) hs

end ShrekOS
