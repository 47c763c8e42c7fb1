/-
The order in which threads take the kernel mutexes.

* `Before`: a parent's pcb before its child's, pcbs before semaphores, the keyboard, the frame
  manager and the console, and the heap last;
* `LocksInOrder`: what a thread wants is above all that it holds, and no threads wait in a cycle;
* `SafeStep`: a pcb that is freed is not referred to any more, and a status is there when it is
  taken from the queue;
* `Nested`: what a thread has to do releases what it holds, and takes mutexes in order;
* `locksInOrder_of_safe`: **in a run of safe steps the mutexes are taken in order**, so that
  there is no cyclic wait;
* `not_locksInOrder`: a run in which a parent is reaped between the lookup of its pcb and the
  `mutex_lock`, and three threads wait in a cycle.

A thread that creates a process owns the pcb until it has a pid. The owners are ghost state.
-/
import ShrekOS.Lib.Waits
import ShrekOS.Locks.LockPaths

namespace ShrekOS.Locking

open Kit

/-! ### The order -/

/-- The mutexes that may be taken while a pcb's is held, and `heap_lock` above them. -/
@[simp] def KMutex.level : KMutex → ℕ
  | .pcb _ => 0
  | .sem _ | .keyboard | .fm | .console => 1
  | .heap => 2

/-- The order of the mutexes: the pcbs by pid. -/
@[simp] def Before (pidOf : Ptr → Option ℤ) : KMutex → KMutex → Prop
  | .pcb a, .pcb b => ∃ p q, pidOf a = some p ∧ pidOf b = some q ∧ p < q
  | m, m' => m.level < m'.level

lemma Before.irrefl (pidOf : Ptr → Option ℤ) (m : KMutex) : ¬ Before pidOf m m := by
  intro h
  cases m with
  | pcb a =>
      obtain ⟨p, q, hp, hq, hlt⟩ := h
      obtain rfl := Option.some.inj (hp.symm.trans hq)
      exact lt_irrefl _ hlt
  | sem _ | keyboard | fm | console | heap => exact lt_irrefl _ h

lemma Before.trans (pidOf : Ptr → Option ℤ) (a b c : KMutex) (hab : Before pidOf a b)
    (hbc : Before pidOf b c) : Before pidOf a c := by
  cases a <;> cases b <;> cases c <;> simp only [Before, KMutex.level] at hab hbc ⊢ <;>
    try omega
  obtain ⟨p, q, hp, hq, hlt⟩ := hab
  obtain ⟨q', r, hq', hr, hlt'⟩ := hbc
  obtain rfl := Option.some.inj (hq.symm.trans hq')
  exact ⟨p, r, hp, hr, hlt.trans hlt'⟩

lemma Before.mono {f g : Ptr → Option ℤ} {m m' : KMutex}
    (hfg : ∀ a, .pcb a = m ∨ .pcb a = m' → ∀ p, f a = some p → g a = some p)
    (h : Before f m m') : Before g m m' := by
  cases m with
  | pcb a =>
      cases m' with
      | pcb b =>
          obtain ⟨p, q, hp, hq, hlt⟩ := h
          exact ⟨p, q, hfg a (.inl rfl) p hp, hfg b (.inr rfl) q hq, hlt⟩
      | sem _ | keyboard | fm | console | heap => exact h
  | sem _ | keyboard | fm | console | heap => exact h

lemma before_heap {f : Ptr → Option ℤ} {m : KMutex} : Before f m .heap ↔ m.level < 2 := by
  cases m <;> rfl

lemma before_of_level {f : Ptr → Option ℤ} {m m' : KMutex} (hm : m.level < 1)
    (hm' : m'.level = 1) : Before f m m' := by
  cases m <;> cases m' <;> simp at hm hm' ⊢

/-- The thread is about to lock the mutex. -/
def Place.Wants (p : Place) (m : KMutex) : Prop := ∃ r, p.todo = .lock m :: r

/-- The pid in the pcb at an address. -/
def World.pidAt (s : World) (pcb : Ptr) : Option ℤ := (s.pcbs pcb).map Pcb.pid

/-- **The mutexes are taken in order**, and no threads wait in a cycle. -/
structure LocksInOrder (s : World × (ℕ → Place)) : Prop where
  inOrder : InOrder (Before s.1.pidAt) (fun t m => m ∈ (s.2 t).held) fun t m => (s.2 t).Wants m
  acyclic : ¬ CyclicWait (fun t m => m ∈ (s.2 t).held) fun t m => (s.2 t).Wants m
  /-- in this order the pcb of a parent is before that of its child -/
  parents : ∀ e ∈ s.1.threads, e.1 ≠ reaperTid → ∀ q, s.1.pcbs e.2 = some q →
    ∀ a p, s.1.pcbs a = some p → p.pid = q.ppid → Before s.1.pidAt (.pcb a) (.pcb e.2)

/-! ### References to pcbs -/

/-- The pcb that a semaphore is part of. -/
def KSem.ptrs : KSem → List Ptr
  | .wait pcb => [pcb]
  | .zombies | .keyboard => []

/-- The pcb that a mutex is part of. -/
def KMutex.ptrs : KMutex → List Ptr
  | .pcb a => [a]
  | .sem s => s.ptrs
  | .keyboard | .fm | .console | .heap => []

/-- The pcbs that are written to. -/
def DataOp.ptrs : DataOp → List Ptr
  | .mutexInit m | .mutexDestroy m => m.ptrs
  | .semInit s _ | .semEnq s | .semDeq s => s.ptrs
  | .setOriginalTid pcb _ | .incThreads pcb | .incChildren pcb | .decChildren pcb
  | .enqStatus pcb _ | .queueDestroy pcb => [pcb]
  | .zombify => []

/-- The pcbs that a step refers to. -/
def LockOp.ptrs : LockOp → List Ptr
  | .lock m | .unlock m => m.ptrs
  | .data op => op.ptrs
  | .semDec s | .await s | .semInc s => s.ptrs
  | .setPpid pcb cur | .addProcess pcb cur => [pcb, cur]
  | .decThreads pcb target => [pcb, target]
  | .checkThreads pcb | .mallocPcb pcb | .addThread pcb | .putPcb pcb | .putThread _ pcb
  | .checkChildren pcb | .deqStatus pcb | .reapPcb pcb | .freePcb pcb => [pcb]
  | .heapCalls | .fmDeallocs | .mayReturn | .findParent | .removeZombie => []

/-- The pcbs that a thread refers to, in what it holds and has to do. -/
def Place.ptrs (p : Place) : List Ptr := p.held.flatMap KMutex.ptrs ++ p.todo.flatMap LockOp.ptrs

/-- Nothing refers to the pcb but the thread `t`, which is the reaper: it is not the scheduler's
init process or reaper, it is not in the table of processes, no thread that is yet to be reaped
belongs to it, and no thread has its address. -/
def Unreferenced (s : World × (ℕ → Place)) (t : ℕ) (pcb : Ptr) : Prop :=
  pcb ≠ s.1.initPcb ∧ pcb ≠ s.1.reaperPcb ∧ (∀ e ∈ s.1.processes, e.2 ≠ pcb) ∧
    (∀ e ∈ s.1.threads, e.2 ≠ pcb) ∧
    ∀ u < s.1.nextTid, u ≠ t → pcb ∉ (s.2 u).ptrs

instance (s : World × (ℕ → Place)) (t : ℕ) (pcb : Ptr) : Decidable (Unreferenced s t pcb) := by
  unfold Unreferenced
  infer_instance

/-- The steps that free no pcb in use, and find a status in the queue. -/
def SafeStep (s : World × (ℕ → Place)) (a : ℕ × LockMove) : Prop :=
  match (s.2 a.1).todo with
  | .freePcb pcb :: _ => Unreferenced s a.1 pcb
  | .deqStatus pcb :: _ => ∀ p ∈ s.1.pcbs pcb, p.statusQueue ≠ []
  | _ => True

instance (s : World × (ℕ → Place)) (a : ℕ × LockMove) : Decidable (SafeStep s a) := by
  unfold SafeStep
  split <;> infer_instance

/-! ### Nested paths -/

/-- The pid and the parent's pid of a process. -/
def Pcb.key (p : Pcb) : ℤ × ℤ := (p.pid, p.ppid)

/-- The pids in a pcb that has got them; the reaper's pcb keeps those of `pcb_init`. -/
def World.ident (s : World) (pcb : Ptr) : Option (ℤ × ℤ) :=
  ((s.pcbs pcb).map Pcb.key).bind fun k => if pcb = s.reaperPcb ∨ k.1 ≠ -1 then some k else none

/-- What the paths of a thread are judged by: the pids, the tids given out, the owners of new
pcbs and the thread itself. -/
structure Ctx where
  ident : Ptr → Option (ℤ × ℤ)
  tids : ℕ
  owner : Ptr → Option ℕ
  self : ℕ

/-- The pids alone. -/
def Ctx.pidOf (C : Ctx) (pcb : Ptr) : Option ℤ := (C.ident pcb).map Prod.fst

/-- The process came after its parent. -/
def Ctx.Child (C : Ctx) (pcb : Ptr) : Prop := ∃ k, C.ident pcb = some k ∧ k.2 < k.1

/-- The path takes mutexes in order, given those held, releases the last one first, and ends
without any. Steps that go on with a new path are the last ones. -/
@[simp] def Nested (C : Ctx) : List KMutex → List LockOp → Prop
  | held, [] => held = []
  | held, .lock m :: r => (∀ h ∈ held, Before C.pidOf h m) ∧ Nested C (m :: held) r
  | held, .unlock m :: r => held.head? = some m ∧ Nested C held.tail r
  | held, .heapCalls :: r => (∀ h ∈ held, h.level < 2) ∧ Nested C held r
  | held, .fmDeallocs :: r => (∀ h ∈ held, h.level < 1) ∧ Nested C held r
  | held, .mayReturn :: r => held = [] ∧ Nested C held r
  | held, .data _ :: r => Nested C held r
  | held, .await _ :: r => Nested C held r
  | held, .semDec s :: r | held, .semInc s :: r =>
      held.head? = some (.sem s) ∧ (∀ h ∈ held.tail, h.level < 1) ∧ Nested C held.tail r
  | held, .checkThreads pcb :: r => held = [.pcb pcb] ∧ r = []
  | held, .mallocPcb _ :: r => held = [.heap] ∧ r = []
  | held, .setPpid pcb _ :: r => C.owner pcb = some C.self ∧ Nested C held r
  | held, .addProcess pcb _ :: r => held = [] ∧ r = [] ∧ C.owner pcb = some C.self
  | held, .addThread cur :: r => held = [] ∧ r = [] ∧ C.Child cur
  | held, .putPcb pcb :: r => (C.ident pcb).isSome ∧ Nested C held r
  | held, .putThread tid pcb :: r => tid < C.tids ∧ C.Child pcb ∧ Nested C held r
  | held, .checkChildren _ :: r => held = [] ∧ r = []
  | held, .deqStatus pcb :: r => held = [.pcb pcb] ∧ r = []
  | held, .findParent :: r => held = [] ∧ r = [] ∧ C.self ≠ reaperTid
  | held, .decThreads pcb _ :: r =>
      held.head? = some (.pcb pcb) ∧ (∀ h ∈ held.tail, h.level < 1) ∧ Nested C held.tail r
  | held, .removeZombie :: r => held = [] ∧ r = []
  | held, .reapPcb _ :: r => held = [] ∧ r = []
  | held, .freePcb _ :: r => held = [.heap] ∧ r = .unlock .heap :: reapEnd

variable {C C' : Ctx} {held held' : List KMutex} {op : LockOp} {r : List LockOp} {a : Ptr}

/-- Calls of `malloc` and `free`. -/
lemma nested_heapCall (hheld : ∀ h ∈ held, h.level < 2) (h : Nested C held r) (n : ℕ) :
    Nested C held (heapCall n ++ r) := by
  induction n with
  | zero => exact h
  | succ n ih => exact ⟨fun m hm => before_heap.mpr (hheld m hm), rfl, ih⟩

lemma Place.mem_ptrs {p : Place} :
    a ∈ p.ptrs ↔ (∃ m ∈ p.held, a ∈ m.ptrs) ∨ ∃ op ∈ p.todo, a ∈ op.ptrs := by
  simp [Place.ptrs]

/-- What is known of a pcb carries over. -/
def Ctx.Carries (C C' : Ctx) (a : Ptr) : Prop :=
  (∀ k, C.ident a = some k → C'.ident a = some k) ∧
    (C.owner a = some C.self → C'.owner a = some C'.self)

lemma Ctx.Carries.child (h : C.Carries C' a) (hc : C.Child a) : C'.Child a := by
  obtain ⟨k, hk, hlt⟩ := hc
  exact ⟨k, h.1 k hk, hlt⟩

lemma Before.carries {m m' : KMutex} (hc : ∀ a, a ∈ m.ptrs ∨ a ∈ m'.ptrs → C.Carries C' a)
    (h : Before C.pidOf m m') : Before C'.pidOf m m' := by
  refine h.mono fun a ha p hp => ?_
  obtain ⟨k, hk, rfl⟩ := Option.map_eq_some_iff.mp hp
  have hmem : a ∈ m.ptrs ∨ a ∈ m'.ptrs := by
    rcases ha with rfl | rfl
    · exact .inl (.head _)
    · exact .inr (.head _)
  exact Option.map_eq_some_iff.mpr ⟨k, (hc a hmem).1 k hk, rfl⟩

/-- **A path stays nested** while what is known of the pcbs that the thread refers to carries
over. -/
theorem Nested.mono (hself : C'.self = C.self) (htids : C.tids ≤ C'.tids) {p : Place}
    (hc : ∀ a ∈ p.ptrs, C.Carries C' a) (h : Nested C p.held p.todo) :
    Nested C' p.held p.todo := by
  obtain ⟨held, todo⟩ := p
  induction todo generalizing held with
  | nil => exact h
  | cons op r ih =>
      have hop : ∀ a ∈ op.ptrs, C.Carries C' a := fun a ha =>
        hc a (Place.mem_ptrs.mpr (.inr ⟨op, .head _, ha⟩))
      -- the rest of the path, with the mutexes then held
      have hrest : ∀ held', (∀ m ∈ held', m ∈ held ∨ ∀ a ∈ m.ptrs, a ∈ op.ptrs) →
          Nested C held' r → Nested C' held' r := by
        refine fun held' hsub hr => ih held' (fun a ha => ?_) hr
        rcases Place.mem_ptrs.mp ha with ⟨m, hm, ham⟩ | ⟨op', hop', haop⟩
        · rcases hsub m hm with hin | hin
          · exact hc a (Place.mem_ptrs.mpr (.inl ⟨m, hin, ham⟩))
          · exact hop a (hin a ham)
        · exact hc a (Place.mem_ptrs.mpr (.inr ⟨op', .tail _ hop', haop⟩))
      have hsame : Nested C held r → Nested C' held r := hrest held fun m hm => .inl hm
      have htail : Nested C held.tail r → Nested C' held.tail r :=
        hrest held.tail fun m hm => .inl (List.mem_of_mem_tail hm)
      cases op with
      | lock m =>
          obtain ⟨hbefore, hr⟩ := h
          refine ⟨fun m' hm' => ?_, hrest (m :: held) ?_ hr⟩
          · refine (hbefore m' hm').carries fun a ha => ?_
            rcases ha with ha | ha
            · exact hc a (Place.mem_ptrs.mpr (.inl ⟨m', hm', ha⟩))
            · exact hop a ha
          · intro m' hm'
            rcases List.mem_cons.mp hm' with rfl | hm'
            · exact .inr fun a ha => ha
            · exact .inl hm'
      | unlock m => exact ⟨h.1, htail h.2⟩
      | heapCalls | fmDeallocs | mayReturn => exact ⟨h.1, hsame h.2⟩
      | data _ | await _ => exact hsame h
      | semDec _ | semInc _ | decThreads _ _ => exact ⟨h.1, h.2.1, htail h.2.2⟩
      | checkThreads _ | mallocPcb _ | checkChildren _ | deqStatus _ | removeZombie
      | reapPcb _ | freePcb _ => exact h
      | setPpid pcb cur => exact ⟨(hop pcb (.head _)).2 h.1, hsame h.2⟩
      | addProcess pcb cur => exact ⟨h.1, h.2.1, (hop pcb (.head _)).2 h.2.2⟩
      | addThread cur => exact ⟨h.1, h.2.1, (hop cur (.head _)).child h.2.2⟩
      | putPcb pcb =>
          obtain ⟨k, hk⟩ := Option.isSome_iff_exists.mp h.1
          exact ⟨Option.isSome_iff_exists.mpr ⟨k, (hop pcb (.head _)).1 k hk⟩, hsame h.2⟩
      | putThread tid pcb =>
          exact ⟨h.1.trans_le htids, (hop pcb (.head _)).child h.2.1, hsame h.2.2⟩
      | findParent => exact ⟨h.1, h.2.1, hself ▸ h.2.2⟩

/-! ### The paths are nested -/

section

variable {pcb cur target : Ptr} {tid : ℕ} {sem : KSem}

lemma nested_fmCall (hheld : ∀ h ∈ held, h.level < 1) (h : Nested C held r) :
    Nested C held (fmCall ++ r) := by
  refine ⟨fun m hm => before_of_level (hheld m hm) rfl, fun m hm => ?_, rfl, h⟩
  rcases List.mem_cons.mp hm with rfl | hm
  · decide
  · exact (hheld m hm).trans one_lt_two

lemma nested_semWait (hheld : ∀ h ∈ held, h.level < 1) (h : Nested C held r) :
    Nested C held (semWait sem ++ r) :=
  ⟨fun m hm => before_of_level (hheld m hm) rfl, rfl, hheld, h⟩

lemma nested_semSignal (hheld : ∀ h ∈ held, h.level < 1) (h : Nested C held r) :
    Nested C held (semSignal sem ++ r) :=
  ⟨fun m hm => before_of_level (hheld m hm) rfl, rfl, hheld, h⟩

/-- What is below the mutexes of the second level is below `heap_lock`, with one of these. -/
lemma level_lt_two (hheld : ∀ h ∈ held, h.level < 1) {m : KMutex} (hm : m.level < 2) :
    ∀ h ∈ m :: held, h.level < 2 := by
  intro h hh
  rcases List.mem_cons.mp hh with rfl | hh
  · exact hm
  · exact (hheld h hh).trans one_lt_two

lemma nested_semWaited (hheld : ∀ h ∈ held, h.level < 1) (h : Nested C held r) (count : ℤ) :
    Nested C (.sem sem :: held) (semWaited sem count ++ r) := by
  unfold semWaited
  split_ifs with hcount
  · rw [List.append_assoc]
    refine nested_heapCall (level_lt_two hheld one_lt_two) ?_ 1
    exact ⟨rfl, h⟩
  · exact ⟨rfl, h⟩

lemma nested_semSignalled (hheld : ∀ h ∈ held, h.level < 1) (h : Nested C held r) (v : Sem) :
    Nested C (.sem sem :: held) (semSignalled sem v ++ r) := by
  unfold semSignalled
  split_ifs with hcount
  · rw [List.append_assoc]
    refine nested_heapCall (level_lt_two hheld one_lt_two) ?_ 1
    exact ⟨rfl, h⟩
  · exact ⟨rfl, h⟩

lemma nested_pcbUpdate (op : DataOp) (h : Nested C [] r) : Nested C [] (pcbUpdate pcb op ++ r) :=
  ⟨by simp, rfl, h⟩

lemma nested_makeZombie : Nested C [] makeZombie := nested_semSignal (by simp) rfl

lemma nested_reapLoop : Nested C [] reapLoop := nested_semWait (by simp) ⟨rfl, rfl⟩

lemma nested_reapEnd : Nested C [] reapEnd := by
  rw [reapEnd, List.append_assoc]
  refine nested_heapCall (by simp) ?_ 2
  exact ⟨by simp, nested_reapLoop⟩

lemma nested_semDestroy (hheld : ∀ h ∈ held, h.level < 1) (h : Nested C held r) :
    Nested C held (semDestroy sem ++ r) :=
  ⟨fun m hm => before_of_level (hheld m hm) rfl, level_lt_two hheld one_lt_two, rfl, h⟩

/-- The pcb's mutex is held while its semaphore is destroyed and its frames are freed. -/
lemma nested_pcbDestroy (h : Nested C [] r) : Nested C [] (pcbDestroy pcb ++ r) := by
  have hpcb : ∀ h ∈ [KMutex.pcb pcb], h.level < 1 := by simp
  have hpcb2 : ∀ h ∈ [KMutex.pcb pcb], h.level < 2 := by simp
  refine ⟨by simp, nested_semDestroy hpcb ?_⟩
  exact ⟨hpcb2, hpcb2, hpcb, hpcb2, rfl, h⟩

/-- A process that is reaped. -/
lemma nested_reaped : Nested C [] (pcbDestroy pcb ++ [.lock .heap, .freePcb pcb, .unlock .heap] ++
    reapEnd) := by
  rw [List.append_assoc]
  refine nested_pcbDestroy ?_
  exact ⟨by simp, rfl, rfl⟩

lemma nested_pcbInit (h : Nested C [] r) : Nested C [] (pcbInit pcb ++ r) := by
  simp only [pcbInit, List.append_assoc]
  refine ⟨by simp, ?_⟩
  exact nested_heapCall (by simp) (nested_heapCall (by simp) h 1) 1

lemma nested_pcbCopy (howner : C.owner pcb = some C.self) (h : Nested C [] r) :
    Nested C [] (pcbCopy pcb cur ++ r) := by
  simp only [pcbCopy, List.append_assoc]
  exact ⟨howner, nested_fmCall (by simp) ⟨by simp, h⟩⟩

/-- A process that is created. -/
lemma nested_mallocked (howner : C.owner pcb = some C.self) : Nested C [.heap]
    ([.unlock .heap] ++ pcbInit pcb ++ pcbCopy pcb cur ++ [.addProcess pcb cur]) := by
  simp only [List.append_assoc]
  exact ⟨rfl, nested_pcbInit (nested_pcbCopy howner ⟨rfl, rfl, howner⟩)⟩

lemma nested_addedProcess (hchild : C.Child pcb) (htid : tid < C.tids) :
    Nested C [] (addedProcess pcb cur tid) := by
  have hid : (C.ident pcb).isSome := by
    obtain ⟨k, hk, -⟩ := hchild
    exact Option.isSome_iff_exists.mpr ⟨k, hk⟩
  have hend : Nested C [] (pcbUpdate cur (.incChildren cur)) := ⟨by simp, rfl, rfl⟩
  simp only [addedProcess, List.append_assoc]
  refine nested_heapCall (by simp) (nested_pcbUpdate _ ?_) 2
  refine nested_heapCall (by simp) ?_ 3
  refine ⟨hid, nested_heapCall (by simp) ?_ 3⟩
  exact ⟨htid, hchild, hend⟩

lemma nested_addedThread (hchild : C.Child cur) (htid : tid < C.tids) :
    Nested C [] (addedThread cur tid) := by
  simp only [addedThread, List.append_assoc]
  refine nested_heapCall (by simp) (nested_pcbUpdate _ ?_) 2
  refine nested_heapCall (by simp) ?_ 3
  exact ⟨htid, hchild, rfl⟩

/-- **The pcbs are nested**: the parent's and, inside, that of the thread's own process. -/
lemma nested_vanishToParent (h : Before C.pidOf (.pcb pcb) (.pcb cur)) :
    Nested C [] (vanishToParent pcb cur) := by
  refine ⟨by simp, fun m hm => ?_, rfl, by simp, rfl, nested_makeZombie⟩
  obtain rfl := List.mem_singleton.mp hm
  exact h

lemma nested_vanishToInit : Nested C [] (vanishToInit pcb cur) := by
  simp only [vanishToInit, List.append_assoc]
  exact nested_pcbUpdate _ ⟨by simp, rfl, by simp, nested_makeZombie⟩

lemma nested_pcbSignalStatus (hheld : ∀ h ∈ held, h.level < 1) (h : Nested C held r) (tid : ℤ) :
    Nested C held (pcbSignalStatus target tid ++ r) := by
  have htwo : ∀ h ∈ held, h.level < 2 := fun m hm => (hheld m hm).trans one_lt_two
  simp only [pcbSignalStatus, List.append_assoc]
  exact nested_heapCall htwo (nested_semSignal hheld h) 2

/-- A system call of a thread that belongs to a process. -/
lemma nested_path (hself : C.self ≠ reaperTid) (hchild : C.Child cur) (c : LockCall) :
    Nested C [] (c.path cur) := by
  cases c with
  | fork => exact ⟨by simp, rfl, rfl⟩
  | threadFork => exact ⟨rfl, rfl, hchild⟩
  | wait => exact ⟨rfl, rfl⟩
  | vanish => exact ⟨rfl, rfl, hself⟩
  | newPages => exact ⟨rfl, nested_fmCall (by simp) ⟨by simp, rfl⟩⟩
  | removePages => exact ⟨rfl, by simp, rfl, nested_fmCall (by simp) ⟨by simp, rfl⟩⟩
  | print => exact ⟨rfl, by simp, rfl, rfl⟩
  | readline => exact ⟨rfl, nested_semWait (by simp) ⟨by simp, rfl, rfl⟩⟩

end

/-! ### The invariant -/

/-- What a thread's paths are judged by in a state. -/
def World.ctx (s : World) (owner : Ptr → Option ℕ) (t : ℕ) : Ctx := ⟨s.ident, s.nextTid, owner, t⟩

/-- **The invariant** of the shared data, given the owners of new pcbs. -/
structure LockInv (s : World) (owner : Ptr → Option ℕ) : Prop where
  pids : ∀ a p, s.pcbs a = some p → p.pid < s.nextPid ∧ p.ppid < s.nextPid
  table : ∀ e ∈ s.processes, ∃ k, s.ident e.2 = some k ∧ k.1 = e.1
  threads : ∀ e ∈ s.threads, e.1 < s.nextTid ∧
    (e.1 ≠ reaperTid → ∃ k, s.ident e.2 = some k ∧ k.2 < k.1)
  fresh : ∀ a t, owner a = some t → ∃ p, s.pcbs a = some p ∧ p.pid = -1 ∧ a ≠ s.reaperPcb
  reaper : (s.pcbs s.reaperPcb).isSome

/-- The assertion of a thread. -/
structure LockAssert (s : World) (owner : Ptr → Option ℕ) (t : ℕ) (p : Place) : Prop where
  nested : Nested (s.ctx owner t) p.held p.todo
  unborn : s.nextTid ≤ t → p = ⟨[], []⟩

/-- The pids are the same, and no process and no thread is new. -/
structure World.Alike (s s' : World) : Prop where
  key : ∀ a, (s'.pcbs a).map Pcb.key = (s.pcbs a).map Pcb.key
  processes : s'.processes ⊆ s.processes
  threads : s'.threads ⊆ s.threads
  reaperPcb : s'.reaperPcb = s.reaperPcb
  nextPid : s'.nextPid = s.nextPid
  nextTid : s'.nextTid = s.nextTid

variable {s s' : World} {owner owner' : Ptr → Option ℕ} {t : ℕ} {pc : ℕ → Place} {p p' : Place}
  {mv : LockMove}

lemma World.Alike.of_data {locked : List KMutex} {sems : KSem → Sem} {zombiePool : List ℕ} :
    s.Alike { s with locked := locked, sems := sems, zombiePool := zombiePool } :=
  ⟨fun _ => rfl, fun _ h => h, fun _ h => h, rfl, rfl, rfl⟩

lemma World.Alike.refl (s : World) : s.Alike s := .of_data

lemma World.Alike.setSem (sem : KSem) (v : Sem) : s.Alike (s.setSem sem v) := .of_data

lemma World.Alike.mapPcb {f : Pcb → Pcb} (hf : ∀ p, (f p).key = p.key) (a : Ptr) :
    s.Alike (s.mapPcb a f) := by
  refine ⟨fun b => ?_, fun _ h => h, fun _ h => h, rfl, rfl, rfl⟩
  by_cases hb : b = a
  · subst hb
    simp only [World.mapPcb, Function.update_self, Option.map_map]
    exact congrArg (Option.map · (s.pcbs b)) (funext hf)
  · simp [World.mapPcb, Function.update_of_ne hb]

lemma DataOp.alike (s : World) (t : ℕ) (op : DataOp) : s.Alike (op.apply s t) := by
  cases op with
  | mutexInit _ | mutexDestroy _ | semInit _ _ | semEnq _ | semDeq _ | zombify => exact .of_data
  | setOriginalTid _ _ | incThreads _ | incChildren _ | decChildren _ | enqStatus _ _
  | queueDestroy _ =>
      refine World.Alike.mapPcb ?_ _
      intro p
      simp only [Pcb.key]

lemma World.Alike.ident (h : s.Alike s') : s'.ident = s.ident := by
  funext a
  rw [World.ident, World.ident, h.key, h.reaperPcb]

lemma World.Alike.ctx (h : s.Alike s') : s'.ctx owner t = s.ctx owner t := by
  rw [World.ctx, World.ctx, h.ident, h.nextTid]

lemma World.Alike.pcb (h : s.Alike s') {a : Ptr} {p' : Pcb} (hp' : s'.pcbs a = some p') :
    ∃ p, s.pcbs a = some p ∧ p.key = p'.key := by
  have hkey := h.key a
  rw [hp', Option.map_some] at hkey
  exact Option.map_eq_some_iff.mp hkey.symm

lemma LockInv.alike (hI : LockInv s owner) (h : s.Alike s') : LockInv s' owner where
  pids := by
    intro a p' hp'
    obtain ⟨p, hp, hkey⟩ := h.pcb hp'
    obtain ⟨hpid, hppid⟩ := Prod.mk.inj hkey
    rw [h.nextPid, ← hpid, ← hppid]
    exact hI.pids a p hp
  table := by
    rw [h.ident]
    exact fun e he => hI.table e (h.processes he)
  threads := by
    rw [h.ident, h.nextTid]
    exact fun e he => hI.threads e (h.threads he)
  fresh := by
    intro a t hat
    obtain ⟨p, hp, hpid, hne⟩ := hI.fresh a t hat
    have hkey := h.key a
    rw [hp, Option.map_some] at hkey
    obtain ⟨p', hp', hkey'⟩ := Option.map_eq_some_iff.mp hkey
    obtain ⟨hpid', -⟩ := Prod.mk.inj hkey'
    exact ⟨p', hp', hpid'.trans hpid, h.reaperPcb ▸ hne⟩
  reaper := by
    rw [h.reaperPcb, ← Option.isSome_map, h.key, Option.isSome_map]
    exact hI.reaper

/-- What a step of a thread establishes. -/
def Kept (t : ℕ) (pc : ℕ → Place) (s' : World) (p' : Place) : Prop :=
  ∃ owner', LockInv s' owner' ∧ LockAssert s' owner' t p' ∧
    ∀ u, u ≠ t → LockAssert s' owner' u (pc u)

/-- A step that carries over what the other threads know of the pcbs that they refer to. -/
lemma Kept.of_carries (owner' : Ptr → Option ℕ)
    (hA : ∀ u, LockAssert s owner u (pc u)) (hI' : LockInv s' owner')
    (htids : s.nextTid ≤ s'.nextTid) (ht : t < s.nextTid)
    (hc : ∀ u, u ≠ t → ∀ a ∈ (pc u).ptrs, (s.ctx owner u).Carries (s'.ctx owner' u) a)
    (hown : Nested (s'.ctx owner' t) p'.held p'.todo) : Kept t pc s' p' := by
  refine ⟨owner', hI', ⟨hown, fun hlt => ?_⟩, fun u hu => ⟨?_, fun hlt => ?_⟩⟩
  · exact absurd (ht.trans_le htids) (not_lt_of_ge hlt)
  · have hold : Nested (s.ctx owner u) (pc u).held (pc u).todo := (hA u).nested
    have hself : (s'.ctx owner' u).self = (s.ctx owner u).self := rfl
    exact Nested.mono hself htids (hc u hu) hold
  · exact (hA u).unborn (htids.trans hlt)

/-- A step that makes nothing of the pids. -/
lemma Kept.alike (hI : LockInv s owner) (hA : ∀ u, LockAssert s owner u (pc u))
    (ht : t < s.nextTid) (h : s.Alike s')
    (hown : Nested (s.ctx owner t) p'.held p'.todo) : Kept t pc s' p' := by
  refine Kept.of_carries owner hA (hI.alike h) h.nextTid.ge ht (fun u _ a _ => ?_) (h.ctx ▸ hown)
  rw [h.ctx]
  exact ⟨fun k hk => hk, fun ho => ho⟩

lemma World.ident_eq_some {a : Ptr} {k : ℤ × ℤ} :
    s.ident a = some k ↔ ∃ p, s.pcbs a = some p ∧ p.key = k ∧ (a = s.reaperPcb ∨ p.pid ≠ -1) := by
  unfold World.ident
  cases hp : s.pcbs a with
  | none => simp
  | some p =>
      constructor
      · intro h
        rw [Option.map_some, Option.bind_some, ite_eq_iff] at h
        obtain ⟨hid, heq⟩ | ⟨-, heq⟩ := h
        · exact ⟨p, rfl, Option.some.inj heq, hid⟩
        · cases heq
      · rintro ⟨p', hp', rfl, hid⟩
        obtain rfl := Option.some.inj hp'
        exact if_pos hid

/-- The pcb of a process that is being created has no pids yet. -/
lemma LockInv.ident_fresh (hI : LockInv s owner) {a : Ptr} (ha : owner a = some t) :
    s.ident a = none := by
  obtain ⟨p, hp, hpid, hne⟩ := hI.fresh a t ha
  rw [Option.eq_none_iff_forall_ne_some]
  intro k hk
  obtain ⟨p', hp', -, hid⟩ := World.ident_eq_some.mp hk
  obtain rfl := Option.some.inj (hp.symm.trans hp')
  exact hid.elim hne fun h => h hpid

/-- When nobody creates the process of a pcb any more, the other fresh pcbs are so as before. -/
lemma LockInv.fresh_release (hI : LockInv s owner) {a pcb : Ptr} {u : ℕ}
    (hother : ∀ a, a ≠ pcb → s'.pcbs a = s.pcbs a)
    (ha : Function.update owner pcb none a = some u) :
    ∃ p, s'.pcbs a = some p ∧ p.pid = -1 ∧ a ≠ s.reaperPcb := by
  have hap : a ≠ pcb := by
    rintro rfl
    rw [Function.update_self] at ha
    cases ha
  rw [Function.update_of_ne hap] at ha
  obtain ⟨p, hp, hrest⟩ := hI.fresh a u ha
  exact ⟨p, (hother a hap).trans hp, hrest⟩

section

variable (hI : LockInv s owner) (hA : ∀ u, LockAssert s owner u (pc u)) (ht : t < s.nextTid)
  {pcb cur : Ptr} {q : Pcb}

include hI hA ht

/-- `malloc` answers with the address of a new pcb, which its creator owns. -/
lemma kept_mallocPcb (hfree : s.pcbs pcb = none) :
    Kept t pc { s with pcbs := Function.update s.pcbs pcb (some ⟨-1, -1, -1, 0, 0, []⟩) }
      ⟨[.heap], [.unlock .heap] ++ pcbInit pcb ++ pcbCopy pcb cur ++ [.addProcess pcb cur]⟩ := by
  have hne : pcb ≠ s.reaperPcb := by
    rintro rfl
    have hsome := hI.reaper
    rw [hfree] at hsome
    cases hsome
  set s' : World := { s with pcbs := Function.update s.pcbs pcb (some ⟨-1, -1, -1, 0, 0, []⟩) }
  have hother : ∀ a, a ≠ pcb → s'.pcbs a = s.pcbs a := fun a ha => Function.update_of_ne ha ..
  have hself : s'.pcbs pcb = some ⟨-1, -1, -1, 0, 0, []⟩ := Function.update_self ..
  have hused : ∀ a p, s.pcbs a = some p → a ≠ pcb := by
    rintro a p hp rfl
    rw [hfree] at hp
    cases hp
  have hid : ∀ a k, s.ident a = some k → s'.ident a = some k := by
    intro a k hk
    obtain ⟨p, hp, hkey, hset⟩ := World.ident_eq_some.mp hk
    exact World.ident_eq_some.mpr ⟨p, (hother a (hused a p hp)).trans hp, hkey, hset⟩
  have hown : ∀ a u, u ≠ t → owner a = some u → Function.update owner pcb (some t) a = some u := by
    intro a u _ ha
    obtain ⟨p, hp, -⟩ := hI.fresh a u ha
    rw [Function.update_of_ne (hused a p hp)]
    exact ha
  refine Kept.of_carries (Function.update owner pcb (some t)) hA ?_ le_rfl ht
    (fun u hu a _ => ⟨hid a, hown a u hu⟩) (nested_mallocked (Function.update_self ..))
  refine ⟨fun a p hp => ?_, fun e he => ?_, fun e he => ⟨(hI.threads e he).1, fun hr => ?_⟩,
    fun a u ha => ?_, ?_⟩
  · by_cases hap : a = pcb
    · subst hap
      obtain rfl := Option.some.inj (hself.symm.trans hp)
      have hneg : (-1 : ℤ) < s.nextPid := by omega
      exact ⟨hneg, hneg⟩
    · exact hI.pids a p ((hother a hap).symm.trans hp)
  · obtain ⟨k, hk, hpid⟩ := hI.table e he
    exact ⟨k, hid _ k hk, hpid⟩
  · obtain ⟨k, hk, hlt⟩ := (hI.threads e he).2 hr
    exact ⟨k, hid _ k hk, hlt⟩
  · by_cases hap : a = pcb
    · subst hap
      exact ⟨_, hself, rfl, hne⟩
    · rw [Function.update_of_ne hap] at ha
      obtain ⟨p, hp, hrest⟩ := hI.fresh a u ha
      exact ⟨p, (hother a hap).trans hp, hrest⟩
  · change (s'.pcbs s.reaperPcb).isSome
    rw [hother _ hne.symm]
    exact hI.reaper

/-- The new pcb gets the pid of its parent. -/
lemma kept_setPpid (howner : owner pcb = some t) (hq : s.pcbs cur = some q)
    (hown : Nested (s.ctx owner t) p'.held p'.todo) :
    Kept t pc (s.mapPcb pcb fun p => { p with ppid := q.pid }) p' := by
  set s' : World := s.mapPcb pcb fun p => { p with ppid := q.pid }
  obtain ⟨p₀, hp₀, hpid₀, hne⟩ := hI.fresh pcb t howner
  have hother : ∀ a, a ≠ pcb → s'.pcbs a = s.pcbs a := fun a ha => Function.update_of_ne ha ..
  have hself : s'.pcbs pcb = some { p₀ with ppid := q.pid } := by
    simp [s', World.mapPcb, hp₀]
  have hid : s'.ident = s.ident := by
    funext a
    by_cases hap : a = pcb
    · subst hap
      rw [hI.ident_fresh howner, Option.eq_none_iff_forall_ne_some]
      intro k hk
      obtain ⟨p, hp, -, hset⟩ := World.ident_eq_some.mp hk
      obtain rfl := Option.some.inj (hself.symm.trans hp)
      exact hset.elim hne fun h => h hpid₀
    · rw [World.ident, World.ident, hother a hap]
      rfl
  have hctx : ∀ u, s'.ctx owner u = s.ctx owner u := by
    intro u
    rw [World.ctx, World.ctx, hid]
    rfl
  refine Kept.of_carries owner hA ?_ le_rfl ht (fun u _ a _ => ?_) (hctx t ▸ hown)
  · refine ⟨fun a p hp => ?_, ?_, ?_, fun a u ha => ?_, ?_⟩
    · by_cases hap : a = pcb
      · subst hap
        obtain rfl := Option.some.inj (hself.symm.trans hp)
        exact ⟨(hI.pids a p₀ hp₀).1, (hI.pids cur q hq).1⟩
      · exact hI.pids a p ((hother a hap).symm.trans hp)
    · rw [hid]
      exact hI.table
    · rw [hid]
      exact hI.threads
    · by_cases hap : a = pcb
      · subst hap
        exact ⟨_, hself, hpid₀, hne⟩
      · obtain ⟨p, hp, hrest⟩ := hI.fresh a u ha
        exact ⟨p, (hother a hap).trans hp, hrest⟩
    · change (s'.pcbs s.reaperPcb).isSome
      rw [hother _ hne.symm]
      exact hI.reaper
  · rw [hctx]
    exact ⟨fun k hk => hk, fun ho => ho⟩

/-- **The new process gets a pid**, which is greater than its parent's. -/
lemma kept_addProcess (howner : owner pcb = some t) :
    Kept t pc { s.mapPcb pcb (fun p => { p with pid := s.nextPid }) with
      nextPid := s.nextPid + 1, nextTid := s.nextTid + 1 }
        ⟨[], addedProcess pcb cur s.nextTid⟩ := by
  set s' : World := { s.mapPcb pcb (fun p => { p with pid := s.nextPid }) with
    nextPid := s.nextPid + 1, nextTid := s.nextTid + 1 }
  obtain ⟨p₀, hp₀, hpid₀, hne⟩ := hI.fresh pcb t howner
  have hother : ∀ a, a ≠ pcb → s'.pcbs a = s.pcbs a := fun a ha => Function.update_of_ne ha ..
  have hself : s'.pcbs pcb = some { p₀ with pid := s.nextPid } := by
    simp [s', World.mapPcb, hp₀]
  have hid : ∀ a k, s.ident a = some k → s'.ident a = some k := by
    intro a k hk
    have hap : a ≠ pcb := by
      rintro rfl
      rw [hI.ident_fresh howner] at hk
      cases hk
    obtain ⟨p, hp, hkey, hset⟩ := World.ident_eq_some.mp hk
    exact World.ident_eq_some.mpr ⟨p, (hother a hap).trans hp, hkey, hset⟩
  have hnew : s'.ident pcb = some ((s.nextPid : ℤ), p₀.ppid) := by
    refine World.ident_eq_some.mpr ⟨_, hself, rfl, .inr ?_⟩
    change (s.nextPid : ℤ) ≠ -1
    omega
  have hchild : (s'.ctx (Function.update owner pcb none) t).Child pcb :=
    ⟨_, hnew, (hI.pids pcb p₀ hp₀).2⟩
  refine Kept.of_carries (Function.update owner pcb none) hA ?_ (Nat.le_succ _) ht
    (fun u hu a _ => ⟨hid a, fun ha => ?_⟩) (nested_addedProcess hchild (Nat.lt_succ_self _))
  · have hnext : s'.nextPid = s.nextPid + 1 := rfl
    refine ⟨fun a p hp => ?_, fun e he => ?_, fun e he => ?_, fun a u ha => ?_, ?_⟩
    · rw [hnext]
      by_cases hap : a = pcb
      · subst hap
        obtain rfl := Option.some.inj (hself.symm.trans hp)
        have hppid := (hI.pids a p₀ hp₀).2
        push_cast
        exact ⟨Int.lt_succ _, hppid.trans (Int.lt_succ _)⟩
      · obtain ⟨hpid, hppid⟩ := hI.pids a p ((hother a hap).symm.trans hp)
        push_cast
        exact ⟨hpid.trans (Int.lt_succ _), hppid.trans (Int.lt_succ _)⟩
    · obtain ⟨k, hk, hpid⟩ := hI.table e he
      exact ⟨k, hid _ k hk, hpid⟩
    · refine ⟨(hI.threads e he).1.trans (Nat.lt_succ_self _), fun hr => ?_⟩
      obtain ⟨k, hk, hlt⟩ := (hI.threads e he).2 hr
      exact ⟨k, hid _ k hk, hlt⟩
    · exact hI.fresh_release hother ha
    · change (s'.pcbs s.reaperPcb).isSome
      rw [hother _ hne.symm]
      exact hI.reaper
  · have hap : a ≠ pcb := by
      rintro rfl
      exact hu (Option.some.inj (ha.symm.trans howner))
    exact (Function.update_of_ne hap ..).trans ha

/-- A new thread of a process gets a tid. -/
lemma kept_addThread (hchild : (s.ctx owner t).Child cur) :
    Kept t pc { s with nextTid := s.nextTid + 1 } ⟨[], addedThread cur s.nextTid⟩ := by
  refine Kept.of_carries owner hA ?_ (Nat.le_succ _) ht
    (fun u _ a _ => ⟨fun k hk => hk, fun ho => ho⟩) (nested_addedThread hchild (Nat.lt_succ_self _))
  refine ⟨hI.pids, hI.table, fun e he => ⟨?_, (hI.threads e he).2⟩, hI.fresh, hI.reaper⟩
  exact (hI.threads e he).1.trans (Nat.lt_succ_self _)

/-- The new process is put in the table. -/
lemma kept_putPcb (hq : s.pcbs pcb = some q) (hsome : (s.ident pcb).isSome)
    (hown : Nested (s.ctx owner t) p'.held p'.todo) :
    Kept t pc { s with processes := (q.pid, pcb) :: s.processes } p' := by
  refine Kept.of_carries owner hA ?_ le_rfl ht
    (fun u _ a _ => ⟨fun k hk => hk, fun ho => ho⟩) hown
  refine ⟨hI.pids, fun e he => ?_, hI.threads, hI.fresh, hI.reaper⟩
  rcases List.mem_cons.mp he with rfl | he
  · obtain ⟨k, hk⟩ := Option.isSome_iff_exists.mp hsome
    obtain ⟨p, hp, rfl, -⟩ := World.ident_eq_some.mp hk
    obtain rfl := Option.some.inj (hq.symm.trans hp)
    exact ⟨_, hk, rfl⟩
  · exact hI.table e he

/-- A new thread is put in the table. -/
lemma kept_putThread {tid : ℕ} (htid : tid < s.nextTid) (hchild : (s.ctx owner t).Child pcb)
    (hown : Nested (s.ctx owner t) p'.held p'.todo) :
    Kept t pc { s with threads := (tid, pcb) :: s.threads } p' := by
  refine Kept.of_carries owner hA ?_ le_rfl ht
    (fun u _ a _ => ⟨fun k hk => hk, fun ho => ho⟩) hown
  refine ⟨hI.pids, hI.table, fun e he => ?_, hI.fresh, hI.reaper⟩
  rcases List.mem_cons.mp he with rfl | he
  · exact ⟨htid, fun _ => hchild⟩
  · exact hI.threads e he

/-- A thread leaves its process, and the last one signals. -/
lemma kept_decThreads {target : Ptr} {rest : List KMutex} {r : List LockOp}
    (hlevel : ∀ h ∈ rest, h.level < 1) (hrest : Nested (s.ctx owner t) rest r) (n : ℕ) (tid : ℤ) :
    Kept t pc (s.mapPcb cur fun p => { p with numThreads := n }) ⟨.pcb cur :: rest,
      [.unlock (.pcb cur)] ++ (if n = 0 then pcbSignalStatus target tid else []) ++ r⟩ := by
  have halike : s.Alike (s.mapPcb cur fun p => { p with numThreads := n }) := by
    refine World.Alike.mapPcb ?_ cur
    intro p
    simp only [Pcb.key]
  refine Kept.alike hI hA ht halike ?_
  simp only [List.append_assoc]
  refine ⟨rfl, ?_⟩
  split_ifs
  · exact nested_pcbSignalStatus hlevel hrest _
  · exact hrest

/-- **A pcb that nothing refers to is freed.** -/
lemma kept_freePcb (hfree : Unreferenced (s, pc) t pcb) :
    Kept t pc { s with pcbs := Function.update s.pcbs pcb none }
      ⟨[.heap], .unlock .heap :: reapEnd⟩ := by
  set s' : World := { s with pcbs := Function.update s.pcbs pcb none }
  obtain ⟨-, hreaper, hprocesses, hthreads, hplaces⟩ := hfree
  have hother : ∀ a, a ≠ pcb → s'.pcbs a = s.pcbs a := fun a ha => Function.update_of_ne ha ..
  have hself : s'.pcbs pcb = none := Function.update_self ..
  have hid : ∀ a, a ≠ pcb → ∀ k, s.ident a = some k → s'.ident a = some k := by
    intro a ha k hk
    obtain ⟨p, hp, hkey, hset⟩ := World.ident_eq_some.mp hk
    exact World.ident_eq_some.mpr ⟨p, (hother a ha).trans hp, hkey, hset⟩
  have hrefs : ∀ u, u ≠ t → ∀ a ∈ (pc u).ptrs, a ≠ pcb := by
    rintro u hu a ha rfl
    by_cases hborn : u < s.nextTid
    · exact hplaces u hborn hu ha
    · rw [(hA u).unborn (not_lt.mp hborn)] at ha
      simp [Place.ptrs] at ha
  refine Kept.of_carries (Function.update owner pcb none) hA ?_ le_rfl ht
    (fun u hu a ha => ⟨hid a (hrefs u hu a ha), fun ho => ?_⟩) ⟨rfl, nested_reapEnd⟩
  · refine ⟨fun a p hp => ?_, fun e he => ?_, fun e he => ⟨(hI.threads e he).1, fun hr => ?_⟩,
      fun a u ha => ?_, ?_⟩
    · have hap : a ≠ pcb := by
        rintro rfl
        rw [hself] at hp
        cases hp
      exact hI.pids a p ((hother a hap).symm.trans hp)
    · obtain ⟨k, hk, hpid⟩ := hI.table e he
      exact ⟨k, hid _ (hprocesses e he) k hk, hpid⟩
    · obtain ⟨k, hk, hlt⟩ := (hI.threads e he).2 hr
      exact ⟨k, hid _ (hthreads e he) k hk, hlt⟩
    · exact hI.fresh_release hother ha
    · change (s'.pcbs s.reaperPcb).isSome
      rw [hother _ hreaper.symm]
      exact hI.reaper
  · exact (Function.update_of_ne (hrefs u hu a ha) ..).trans ho

end

/-- The moves that an operation may be taken with. -/
lemma perform_move {held : List KMutex} {op : LockOp} {x : World × Place}
    (h : perform s t held r op mv = some x) :
    mv = .run ∨ (mv = .leave ∧ (op = .heapCalls ∨ op = .fmDeallocs ∨ op = .mayReturn)) ∨
      ∃ cur pcb, op = .mallocPcb cur ∧ mv = .malloc pcb := by
  cases mv with
  | run => exact .inl rfl
  | leave => cases op <;> simp [perform] at h ⊢
  | malloc pcb => cases op <;> simp [perform] at h ⊢
  | call _ | line => cases op <;> simp [perform] at h


/-- What is found in a table is in it. -/
lemma mem_of_lookup {K V : Type} [BEq K] [LawfulBEq K] {l : List (K × V)} {k : K} {v : V}
    (h : l.lookup k = some v) : (k, v) ∈ l := by
  obtain ⟨l₁, l₂, rfl, -⟩ := List.lookup_eq_some_iff.mp h
  simp

/-- The pids of a thread's process and of its parent: **`ppid < pid`**. -/
lemma LockInv.parent_before (hI : LockInv s owner) {cur parent : Ptr} {q : Pcb}
    (hself : t ≠ reaperTid) (hcur : s.threads.lookup t = some cur) (hq : s.pcbs cur = some q)
    (hparent : s.processes.lookup q.ppid = some parent) :
    Before (s.ctx owner t).pidOf (.pcb parent) (.pcb cur) := by
  obtain ⟨k, hk, hlt⟩ := (hI.threads _ (mem_of_lookup hcur)).2 hself
  obtain ⟨k', hk', hpid⟩ := hI.table _ (mem_of_lookup hparent)
  obtain ⟨q', hq', rfl, -⟩ := World.ident_eq_some.mp hk
  obtain rfl := Option.some.inj (hq.symm.trans hq')
  refine ⟨q.ppid, q.pid, ?_, ?_, hlt⟩
  · exact Option.map_eq_some_iff.mpr ⟨k', hk', hpid⟩
  · exact Option.map_eq_some_iff.mpr ⟨q.key, hk, rfl⟩

/-- A held list from its head. -/
lemma eq_cons_of_head? {m : KMutex} {held : List KMutex} (h : held.head? = some m) :
    held = m :: held.tail := by
  obtain ⟨l, rfl⟩ := List.head?_eq_some_iff.mp h
  rfl

/-- **Every step keeps the paths nested**, if it frees no pcb in use and finds a status. -/
theorem perform_kept (hI : LockInv s owner) (hA : ∀ u, LockAssert s owner u (pc u)) {op : LockOp}
    (hsafe : SafeStep (s, pc) (t, mv)) (htodo : (pc t).todo = op :: r)
    (h : perform s t (pc t).held r op mv = some (s', p')) : Kept t pc s' p' := by
  have ht : t < s.nextTid := by
    by_contra hlt
    rw [(hA t).unborn (not_lt.mp hlt)] at htodo
    cases htodo
  have hn : Nested (s.ctx owner t) (pc t).held (op :: r) := htodo ▸ (hA t).nested
  -- an operation that writes nothing that matters: only the locks still to come are checked
  have hdone : ∀ {s₁ : World} {p₁ : Place}, some (s₁, p₁) = some (s', p') → s.Alike s₁ →
      Nested (s.ctx owner t) p₁.held p₁.todo → Kept t pc s' p' := by
    intro s₁ p₁ heq halike hown
    obtain ⟨rfl, rfl⟩ := Prod.mk.inj (Option.some.inj heq)
    exact Kept.alike hI hA ht halike hown
  unfold SafeStep at hsafe
  rw [htodo] at hsafe
  generalize (pc t).held = held at hn h
  -- most moves run the next operation; the others are retries that a waiting thread makes
  rcases perform_move h with rfl | ⟨rfl, rfl | rfl | rfl⟩ | ⟨cur, pcb, rfl, rfl⟩
  · cases op with
    | lock m =>
        simp only [perform, ite_eq_iff, reduceCtorEq, and_false, false_or] at h
        exact hdone h.2 .of_data hn.2
    | unlock m =>
        rw [perform, eq_cons_of_head? hn.1, List.erase_cons_head] at h
        exact hdone h .of_data hn.2
    | heapCalls => exact hdone h (.refl s) (nested_heapCall hn.1 hn 1)
    | fmDeallocs => exact hdone h (.refl s) (nested_fmCall hn.1 hn)
    | mayReturn => exact hdone h (.refl s) hn.2
    | data op => exact hdone h (op.alike s t) hn
    -- `sem_wait` and `sem_signal` run inside the lock of the semaphore
    | semDec sem =>
        obtain ⟨hhead, hlevel, hrest⟩ := hn
        rw [eq_cons_of_head? hhead] at h
        exact hdone h (.setSem _ _) (nested_semWaited hlevel hrest _)
    | await sem =>
        simp only [perform, ite_eq_iff, reduceCtorEq, and_false, false_or] at h
        exact hdone h.2 (.refl s) hn
    | semInc sem =>
        obtain ⟨hhead, hlevel, hrest⟩ := hn
        rw [eq_cons_of_head? hhead] at h
        exact hdone h (.setSem _ _) (nested_semSignalled hlevel hrest _)
    | checkThreads cur =>
        obtain ⟨rfl, rfl⟩ := hn
        obtain ⟨q, -, hq⟩ := Option.map_eq_some_iff.mp h
        rw [← Option.some_inj] at hq
        split_ifs at hq
        · exact hdone hq (.refl s) ⟨rfl, rfl⟩
        · exact hdone hq (.refl s) ⟨rfl, by simp, rfl, rfl⟩
    | mallocPcb cur => cases h
    | setPpid pcb cur =>
        obtain ⟨q, hq, heq⟩ := Option.map_eq_some_iff.mp h
        obtain ⟨rfl, rfl⟩ := Prod.mk.inj heq
        exact kept_setPpid hI hA ht hn.1 hq hn.2
    | addProcess pcb cur =>
        obtain ⟨rfl, rfl, howner⟩ := hn
        obtain ⟨rfl, rfl⟩ := Prod.mk.inj (Option.some.inj h)
        exact kept_addProcess hI hA ht howner
    | addThread cur =>
        obtain ⟨rfl, rfl, hchild⟩ := hn
        obtain ⟨rfl, rfl⟩ := Prod.mk.inj (Option.some.inj h)
        exact kept_addThread hI hA ht hchild
    | putPcb pcb =>
        obtain ⟨q, hq, heq⟩ := Option.map_eq_some_iff.mp h
        obtain ⟨rfl, rfl⟩ := Prod.mk.inj heq
        exact kept_putPcb hI hA ht hq hn.1 hn.2
    | putThread tid pcb =>
        obtain ⟨rfl, rfl⟩ := Prod.mk.inj (Option.some.inj h)
        exact kept_putThread hI hA ht hn.1 hn.2.1 hn.2.2
    | checkChildren cur =>
        obtain ⟨rfl, rfl⟩ := hn
        obtain ⟨q, -, hq⟩ := Option.map_eq_some_iff.mp h
        rw [← Option.some_inj] at hq
        split_ifs at hq
        · exact hdone hq (.refl s) rfl
        · exact hdone hq (.refl s) (nested_semWait (by simp) ⟨by simp, rfl, rfl⟩)
    | deqStatus cur =>
        obtain ⟨rfl, rfl⟩ := hn
        obtain ⟨q, hq, heq⟩ := Option.map_eq_some_iff.mp h
        -- `SafeStep` says that the queue is not empty
        rcases hqueue : q.statusQueue with _ | ⟨status, statuses⟩
        · exact absurd hqueue (hsafe q hq)
        · rw [hqueue, ← Option.some_inj] at heq
          have halike : s.Alike (s.mapPcb cur fun p => { p with statusQueue := statuses }) := by
            refine World.Alike.mapPcb ?_ cur
            intro p
            simp only [Pcb.key]
          refine hdone heq halike ?_
          have hend : Nested (s.ctx owner t) [] (pcbUpdate cur (.decChildren cur)) :=
            ⟨by simp, rfl, rfl⟩
          simp only [List.append_assoc]
          refine nested_heapCall (by simp) ?_ 1
          exact ⟨rfl, nested_heapCall (by simp) hend 1⟩
    | findParent =>
        obtain ⟨rfl, rfl, hself⟩ := hn
        obtain ⟨cur, hcur, h⟩ := Option.bind_eq_some_iff.mp h
        obtain ⟨q, hq, heq⟩ := Option.map_eq_some_iff.mp h
        -- the parent has a lower pid, so its lock comes first
        rcases hparent : s.processes.lookup q.ppid with _ | parent
        · rw [hparent, ← Option.some_inj] at heq
          exact hdone heq (.refl s) nested_vanishToInit
        · rw [hparent, ← Option.some_inj] at heq
          exact hdone heq (.refl s)
            (nested_vanishToParent (hI.parent_before hself hcur hq hparent))
    | decThreads cur target =>
        obtain ⟨hhead, hlevel, hrest⟩ := hn
        rw [eq_cons_of_head? hhead] at h
        simp only [perform] at h
        obtain ⟨q, -, heq⟩ := Option.map_eq_some_iff.mp h
        generalize decCount q.numThreads = n at heq
        obtain ⟨rfl, rfl⟩ := Prod.mk.inj heq
        exact kept_decThreads hI hA ht hlevel hrest n q.originalTid
    | removeZombie =>
        obtain ⟨rfl, rfl⟩ := hn
        rw [perform] at h
        rcases hpool : s.zombiePool with _ | ⟨z, zombies⟩
        · rw [hpool] at h
          exact hdone h (.refl s) nested_reapLoop
        · rw [hpool] at h
          obtain ⟨pcb, -, h⟩ := Option.bind_eq_some_iff.mp h
          obtain ⟨q, -, heq⟩ := Option.map_eq_some_iff.mp h
          rw [← Option.some_inj] at heq
          -- tables only shrink when the reaper removes something
          refine hdone heq ⟨fun _ => rfl, ?_, List.filter_subset_self _, rfl, rfl, rfl⟩ ⟨rfl, rfl⟩
          change (if q.numThreads = 0 then _ else s.processes) ⊆ s.processes
          split_ifs
          · exact List.filter_subset_self _
          · exact List.Subset.refl _
    | reapPcb pcb =>
        obtain ⟨rfl, rfl⟩ := hn
        obtain ⟨q, -, hq⟩ := Option.map_eq_some_iff.mp h
        rw [← Option.some_inj] at hq
        split_ifs at hq
        · exact hdone hq (.refl s) nested_reaped
        · exact hdone hq (.refl s) nested_reapEnd
    | freePcb pcb =>
        obtain ⟨rfl, rfl⟩ := hn
        obtain ⟨rfl, rfl⟩ := Prod.mk.inj (Option.some.inj h)
        exact kept_freePcb hI hA ht hsafe
  · exact hdone h (.refl s) hn.2
  · exact hdone h (.refl s) hn.2
  · exact hdone h (.refl s) hn.1
  · obtain ⟨rfl, rfl⟩ := hn
    simp only [perform, ite_eq_iff, reduceCtorEq, and_false, false_or] at h
    -- `malloc` of a pcb picks an address that is not in use
    obtain ⟨hfree, h⟩ := h
    obtain ⟨rfl, rfl⟩ := Prod.mk.inj (Option.some.inj h)
    refine kept_mallocPcb hI hA ht ?_
    simpa using hfree

/-- **The rule for a step of a thread.** -/
theorem lockStep_kept (hI : LockInv s owner) (hA : ∀ u, LockAssert s owner u (pc u))
    (hsafe : SafeStep (s, pc) (t, mv)) (h : lockStep s t (pc t) mv = some (s', p')) :
    Kept t pc s' p' := by
  have hop : (∃ op r, (pc t).todo = op :: r ∧ perform s t (pc t).held r op mv = some (s', p')) →
      Kept t pc s' p' := by
    rintro ⟨op, r, htodo, hrun⟩
    exact perform_kept hI hA hsafe htodo hrun
  have hcases : (pc t).todo = [] ∨ ∃ op r, (pc t).todo = op :: r := by
    cases (pc t).todo with
    | nil => exact .inl rfl
    | cons op r => exact .inr ⟨op, r, rfl⟩
  cases mv with
  | line =>
      obtain ⟨rfl, rfl⟩ := Prod.mk.inj (Option.some.inj h)
      have halike : s.Alike s.typeLine := .setSem _ _
      refine ⟨owner, hI.alike halike, ?_, fun u _ => ?_⟩
      · exact ⟨halike.ctx ▸ (hA t).nested, fun hlt => (hA t).unborn (halike.nextTid ▸ hlt)⟩
      · exact ⟨halike.ctx ▸ (hA u).nested, fun hlt => (hA u).unborn (halike.nextTid ▸ hlt)⟩
  | call c =>
      simp only [lockStep, ite_eq_iff, reduceCtorEq, and_false, or_false] at h
      obtain ⟨⟨htodo, hself, -⟩, h⟩ := h
      obtain ⟨cur, hcur, heq⟩ := Option.map_eq_some_iff.mp h
      obtain ⟨rfl, rfl⟩ := Prod.mk.inj heq
      obtain ⟨ht, hchild⟩ := hI.threads _ (mem_of_lookup hcur)
      have hheld : (pc t).held = [] := by
        have hn := (hA t).nested
        rw [htodo] at hn
        exact hn
      have hcur : (s.ctx owner t).Child cur := hchild hself
      have hpath : Nested (s.ctx owner t) [] (c.path cur) := nested_path hself hcur c
      refine Kept.alike hI hA ht (.refl s) ?_
      rw [hheld]
      exact hpath
  | run | leave | malloc _ =>
      obtain htodo | ⟨op, r, htodo⟩ := hcases
      · simp [lockStep, htodo] at h
      · simp only [lockStep, htodo] at h
        exact hop ⟨op, r, htodo, h⟩

/-- The invariant and the assertions hold in the beginning. -/
lemma locks_init {idle reaper init : Ptr} (hne : [idle, reaper, init].Nodup) :
    LockInv (bootWorld idle reaper init) (fun _ => none) ∧
      ∀ t, LockAssert (bootWorld idle reaper init) (fun _ => none) t (bootPlaces t) := by
  simp only [List.nodup_cons, List.mem_cons, List.not_mem_nil, or_false, not_or] at hne
  obtain ⟨⟨hir, hin⟩, hrn, -⟩ := hne
  set s := bootWorld idle reaper init with hs
  have hreaper : s.pcbs reaper = some ⟨-1, -1, -1, 0, 0, []⟩ := by simp [hs, bootWorld, Ne.symm hir]
  have hinit : s.pcbs init = some ⟨1, -1, 2, 1, 0, []⟩ := by
    simp [hs, bootWorld, Ne.symm hin, Ne.symm hrn]
  have hidr : s.ident reaper = some (-1, -1) :=
    World.ident_eq_some.mpr ⟨_, hreaper, rfl, .inl rfl⟩
  have hidn : s.ident init = some (1, -1) :=
    World.ident_eq_some.mpr ⟨_, hinit, rfl, .inr (by decide)⟩
  refine ⟨⟨fun a p hp => ?_, ?_, ?_, (fun a t ha => by cases ha), ?_⟩, fun t => ⟨?_, fun ht => ?_⟩⟩
  · have hbound : p.pid < 2 ∧ p.ppid < 2 := by
      simp only [hs, bootWorld] at hp
      split_ifs at hp <;> cases hp <;> decide
    exact hbound
  · simp only [hs, bootWorld, List.forall_mem_cons]
    exact ⟨⟨_, hidn, rfl⟩, ⟨_, hidr, rfl⟩, by simp⟩
  · simp only [hs, bootWorld, List.forall_mem_cons]
    exact ⟨⟨by decide, fun _ => ⟨_, hidn, by decide⟩⟩,
      ⟨by decide, fun hr => absurd rfl hr⟩, by simp⟩
  · exact Option.isSome_iff_exists.mpr ⟨_, hreaper⟩
  · unfold bootPlaces
    split_ifs with ht
    · exact nested_reapLoop
    · rfl
  · have hlt : (3 : ℕ) ≤ t := ht
    have hne : t ≠ reaperTid := by
      rintro rfl
      exact absurd hlt (by decide)
    rw [bootPlaces, if_neg hne]

/-- In a run of safe steps all paths are nested. -/
lemma lockAnnotated {s : World × (ℕ → Place)} (h : lockThreads.machine.Reach SafeStep s) :
    Threads.Annotated LockInv LockAssert s := by
  refine Threads.annotated_of_reach ?_ ?_ h
  · rintro _ ⟨idle, reaper, init, hne, rfl⟩
    exact ⟨_, locks_init hne⟩
  · intro s pc owner t mv s' p' hI hA hsafe hstep
    exact lockStep_kept hI hA hsafe hstep

/-- **In a run of safe steps the mutexes are taken in order**, and there is no cyclic wait. -/
theorem locksInOrder_of_safe {s : World × (ℕ → Place)} (h : lockThreads.machine.Reach SafeStep s) :
    LocksInOrder s := by
  obtain ⟨owner, hI, hA⟩ := lockAnnotated h
  have horder : InOrder (Before s.1.pidAt) (fun t m => m ∈ (s.2 t).held)
      fun t m => (s.2 t).Wants m := by
    rintro t m m' hm ⟨r, hr⟩
    have hn := (hA t).nested
    rw [hr] at hn
    refine (hn.1 m hm).mono fun a _ pid hpid => ?_
    obtain ⟨k, hk, rfl⟩ := Option.map_eq_some_iff.mp hpid
    obtain ⟨p, hp, rfl, -⟩ := World.ident_eq_some.mp hk
    exact Option.map_eq_some_iff.mpr ⟨p, hp, rfl⟩
  refine ⟨horder, horder.not_cyclicWait (Before.irrefl _) (Before.trans _), ?_⟩
  intro e he hne q hq a p hp hpid
  obtain ⟨k, hk, hlt⟩ := (hI.threads e he).2 hne
  obtain ⟨q', hq', rfl, -⟩ := World.ident_eq_some.mp hk
  obtain rfl := Option.some.inj (hq.symm.trans hq')
  refine ⟨p.pid, q.pid, Option.map_eq_some_iff.mpr ⟨p, hp, rfl⟩,
    Option.map_eq_some_iff.mpr ⟨q, hq, rfl⟩, ?_⟩
  rw [hpid]
  exact hlt

/-! ### Runs -/

/-- A thread's next move where nothing is decided: no calls that may be left out, and `malloc`
answers with the given address. -/
def plainMove (addr : Ptr) : List LockOp → LockMove
  | .heapCalls :: _ | .fmDeallocs :: _ => .leave
  | .mallocPcb _ :: _ => .malloc addr
  | _ => .run

/-- A turn of a thread: a system call that it may start, and the number of its steps. -/
structure Turn where
  tid : ℕ
  start : Option LockCall
  addr : Ptr
  steps : ℕ

/-- The steps of one thread. -/
def runFor (f : World × (ℕ → Place) → ℕ × LockMove → Option (World × (ℕ → Place))) (t : ℕ)
    (addr : Ptr) : ℕ → World × (ℕ → Place) → Option (World × (ℕ → Place))
  | 0, s => some s
  | n + 1, s => (f s (t, plainMove addr (s.2 t).todo)).bind (runFor f t addr n)

/-- The state after a turn. -/
def takeTurn (f : World × (ℕ → Place) → ℕ × LockMove → Option (World × (ℕ → Place)))
    (s : World × (ℕ → Place)) (a : Turn) : Option (World × (ℕ → Place)) :=
  (a.start.elim (some s) fun c => f s (a.tid, .call c)).bind (runFor f a.tid a.addr a.steps)

section

variable {f : World × (ℕ → Place) → ℕ × LockMove → Option (World × (ℕ → Place))}
  {G : World × (ℕ → Place) → ℕ × LockMove → Prop}
  (hf : ∀ s a s', f s a = some s' → G s a ∧ lockThreads.next s a = some s')

include hf

lemma reach_of_runFor {tid : ℕ} {addr : Ptr} (n : ℕ) {s s' : World × (ℕ → Place)}
    (hs : lockThreads.machine.Reach G s) (h : runFor f tid addr n s = some s') :
    lockThreads.machine.Reach G s' := by
  induction n generalizing s with
  | zero => exact Option.some.inj h ▸ hs
  | succ n ih =>
      obtain ⟨s₁, h₁, h₂⟩ := Option.bind_eq_some_iff.mp h
      obtain ⟨hG, hstep⟩ := hf _ _ _ h₁
      exact ih (.step hs hG hstep) h₂

/-- The turns of a run lead to a state of the machine. -/
lemma reach_of_turns (as : List Turn) {s s' : World × (ℕ → Place)}
    (hs : lockThreads.machine.Reach G s) (h : Machine.replay (takeTurn f) s as = some s') :
    lockThreads.machine.Reach G s' := by
  induction as generalizing s with
  | nil => exact Option.some.inj h ▸ hs
  | cons a as ih =>
      obtain ⟨s₁, h₁, h₂⟩ := Option.bind_eq_some_iff.mp h
      obtain ⟨s₀, h₀, hrun⟩ := Option.bind_eq_some_iff.mp h₁
      have hs₀ : lockThreads.machine.Reach G s₀ := by
        cases hstart : a.start with
        | none =>
            rw [hstart] at h₀
            exact Option.some.inj h₀ ▸ hs
        | some c =>
            rw [hstart] at h₀
            obtain ⟨hG, hstep⟩ := hf _ _ _ h₀
            exact .step hs hG hstep
      exact ih (reach_of_runFor hf a.steps hs₀ hrun) h₂

end

/-- The mutex that a thread wants. -/
def Place.next (p : Place) : Option KMutex :=
  match p.todo with
  | .lock m :: _ => some m
  | _ => none

lemma Place.wants_of_next {p : Place} {m : KMutex} (h : p.next = some m) : p.Wants m := by
  unfold Place.next at h
  split at h
  · next m' r htodo => exact ⟨r, Option.some.inj h ▸ htodo⟩
  · cases h

lemma waits_of_next {s : World × (ℕ → Place)} {t u : ℕ} {m : KMutex}
    (hnext : (s.2 t).next = some m) (hheld : (s.2 u).held = [m]) :
    Waits (fun t m => m ∈ (s.2 t).held) (fun t m => (s.2 t).Wants m) t u := by
  refine ⟨m, Place.wants_of_next hnext, ?_⟩
  have hmem := List.mem_singleton_self m
  rwa [← hheld] at hmem

/-- What some threads hold and want. -/
def lockView (tids : List ℕ) (s : World × (ℕ → Place)) : List (List KMutex × Option KMutex) :=
  tids.map fun t => ((s.2 t).held, (s.2 t).next)

/-- A process forks twice; the first child vanishes and is reaped before the second one gets its
pcb. The second child is vanishing. -/
def reapedRun : List Turn :=
  [⟨2, some .fork, 20, 45⟩, ⟨3, some .vanish, 0, 18⟩, ⟨1, none, 0, 32⟩, ⟨2, some .fork, 20, 45⟩,
    ⟨4, some .vanish, 0, 2⟩]

/-- The run that reaps a process is in order, with a child inside its parent. -/
theorem locksInOrder_of_safe_reapedRun :
    ∃ s, Machine.replay (takeTurn (Machine.guarded SafeStep lockThreads.next))
        (bootWorld 10 11 12, bootPlaces) reapedRun = some s ∧
      lockView [4] s = [([.pcb 12], some (.pcb 20))] ∧ LocksInOrder s := by
  have hrun : (Machine.replay (takeTurn (Machine.guarded SafeStep lockThreads.next))
      (bootWorld 10 11 12, bootPlaces) reapedRun).map (lockView [4]) =
        some [([.pcb 12], some (.pcb 20))] := by decide +kernel
  rw [Option.map_eq_some_iff] at hrun
  obtain ⟨s, hs, hview⟩ := hrun
  refine ⟨s, hs, hview, locksInOrder_of_safe ?_⟩
  refine reach_of_turns (fun s a s' h => ?_) reapedRun (.init ⟨10, 11, 12, by decide, rfl⟩) hs
  unfold Machine.guarded at h
  split_ifs at h with hG
  exact ⟨hG, h⟩

/-- Processes fork in a row. A thread finds its parent's pcb; the parent vanishes and is reaped,
and its pcb goes to the last process of the row. Then all three vanish. -/
def reusedRun : List Turn :=
  [⟨2, some .fork, 20, 45⟩, ⟨3, some .fork, 30, 45⟩, ⟨4, some .fork, 40, 45⟩,
    ⟨4, some .vanish, 0, 1⟩, ⟨3, some .vanish, 0, 18⟩, ⟨1, none, 0, 25⟩, ⟨5, some .fork, 20, 45⟩,
    ⟨6, some .vanish, 0, 2⟩, ⟨4, none, 0, 1⟩, ⟨5, some .vanish, 0, 2⟩]

/-- **A cyclic wait**: each of three threads holds what it takes for its parent's mutex, and
wants its own. -/
theorem not_locksInOrder :
    ¬ ∀ s, lockThreads.machine.Reachable s → LocksInOrder s := by
  have hrun : (Machine.replay (takeTurn lockThreads.next) (bootWorld 10 11 12, bootPlaces)
      reusedRun).map (lockView [4, 5, 6]) =
        some [([.pcb 20], some (.pcb 30)), ([.pcb 30], some (.pcb 40)),
          ([.pcb 40], some (.pcb 20))] := by decide +kernel
  rw [Option.map_eq_some_iff] at hrun
  obtain ⟨s, hs, hview⟩ := hrun
  simp only [lockView, List.map_cons, List.map_nil, List.cons.injEq, Prod.mk.injEq, and_true]
    at hview
  obtain ⟨⟨hheld4, hnext4⟩, ⟨hheld5, hnext5⟩, hheld6, hnext6⟩ := hview
  have hreach : lockThreads.machine.Reachable s :=
    reach_of_turns (fun _ _ _ h => ⟨trivial, h⟩) reusedRun (.init ⟨10, 11, 12, by decide, rfl⟩) hs
  intro hall
  have h45 := waits_of_next hnext4 hheld5
  have h56 := waits_of_next hnext5 hheld6
  have h64 := waits_of_next hnext6 hheld4
  exact (hall s hreach).acyclic ⟨4, ((Relation.TransGen.single h45).tail h56).tail h64⟩

end ShrekOS.Locking
