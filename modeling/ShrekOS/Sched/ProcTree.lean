/-
Process trees: `fork`, `thread_fork`, `vanish` and `wait`, and the reaper.

* `Pcb`, `Thread`, `ProcTree`: the `processes` table, the threads, and the zombies;
* `syscallFork`, `syscallThreadFork`, `thrVanish`, `syscallWait`, `tcbPoolReap`: the operations,
  one at a time; `procMachine`: their runs;
* `Grown`: what holds of a tree; `Grown.modify`, `Grown.move`, `Grown.addProcess`,
  `Grown.reapTcb`, `Grown.removePcb`: what it survives;
* `grown_thrVanish`, `thrVanish_eq_none`, `pcbWaitOnStatus_spec`: what `vanish` and `wait` do.

The operations do not overlap: no lock is found taken, and nobody is in the queue of a semaphore.
A `wait` that blocks does not complete, so it is no step. The idle and the reaper thread make no
calls; the reaper's pcb has the pid -1 that `pcb_init` leaves, which is also the ppid of init.
-/
import ShrekOS.Sched.WaitCalls

namespace ShrekOS.Processes

open Kit
open WaitCalls (EnqAnswer)

/-! ### The process tree -/

/-- `pcb_metadata_t`. -/
structure PcbMetadata where
  status : ℤ
  originalTid : ℤ
  deriving DecidableEq

/-- The parts of a `pcb_t` that the operations use. Its pid is its key in the table. -/
structure Pcb where
  ppid : ℤ
  originalTid : ℤ
  numChildProc : ℤ
  numThreads : ℤ
  statusQueue : List PcbMetadata
  waitSem : ℤ
  deriving DecidableEq

/-- `pcb_init`. -/
def Pcb.init : Pcb where
  ppid := -1
  originalTid := -1
  numChildProc := 0
  numThreads := 0
  statusQueue := []
  waitSem := 0

/-- A tid: not given out yet, a thread of a process, a zombie of one, and reaped. -/
inductive Thread where
  | unborn
  | alive (pid : ℤ)
  | zombie (pid : ℤ)
  | reaped
  deriving DecidableEq

/-- The `processes` table, the threads, the zombie pool, and the next pid and tid. -/
structure ProcTree where
  processes : ℤ → Option Pcb
  threads : ℕ → Thread
  zombiePool : List ℕ
  nextPid : ℤ
  nextTid : ℕ

/-- The pid of `sched.init_pcb`: `scheduler_add_idle_process` takes the first one. -/
def initPid : ℤ := 1

namespace ProcTree

/-- A process that is in the table changes. -/
def modify (s : ProcTree) (p : ℤ) (f : Pcb → Pcb) : ProcTree :=
  { s with processes := Function.update s.processes p ((s.processes p).map f) }

/-- The `pcb` of a thread that runs. -/
def curPcb (s : ProcTree) (t : ℕ) : Option (ℤ × Pcb) :=
  match s.threads t with
  | .alive pid => (s.processes pid).map fun pcb => (pid, pcb)
  | _ => none

end ProcTree

/-! ### The operations -/

/-- `pcb_inc_children_s`. -/
def pcbIncChildren (pcb : Pcb) : Pcb := { pcb with numChildProc := pcb.numChildProc + 1 }

/-- `pcb_dec_children_s`. -/
def pcbDecChildren (pcb : Pcb) : Pcb := { pcb with numChildProc := pcb.numChildProc - 1 }

/-- `pcb_inc_threads_s`. -/
def pcbIncThreads (pcb : Pcb) : Pcb := { pcb with numThreads := pcb.numThreads + 1 }

/-- `pcb_dec_threads_s`. -/
def pcbDecThreads (pcb : Pcb) : Pcb := { pcb with numThreads := pcb.numThreads - 1 }

/-- `pcb_signal_status`, by the answers of its allocations. -/
def pcbSignalStatus (status originalTid : ℤ) (ans : EnqAnswer) (pcb : Pcb) : Pcb :=
  match ans with
  | .stored => { pcb with
      statusQueue := pcb.statusQueue ++ [⟨status, originalTid⟩]
      waitSem := pcb.waitSem + 1 }
  | _ => pcb

/-- How far a `fork` comes: no memory for the copy; none for its thread, whose pcb, if the table has
it by then, is freed and left there under a pid that nobody looks up; or a new process. -/
inductive ForkAnswer where
  | noCopy
  | noTcb
  | made
  deriving DecidableEq

/-- How far a `thread_fork` comes: no memory for the tcb; a tcb that `num_threads` counts, and no
memory for its nodes in the pool; or a new thread. -/
inductive ThreadForkAnswer where
  | noTcb
  | noNode
  | made
  deriving DecidableEq

/-- `scheduler_add_process` for the copy that `fork` makes. -/
def schedulerAddProcess (s : ProcTree) (pcb : Pcb) : ProcTree :=
  { s with
    processes := Function.update s.processes s.nextPid
      (some (pcbIncThreads { pcb with originalTid := s.nextTid }))
    threads := Function.update s.threads s.nextTid (.alive s.nextPid)
    nextPid := s.nextPid + 1
    nextTid := s.nextTid + 1 }

/-- `syscall_fork_c_handler` in thread `t`. -/
def syscallFork (s : ProcTree) (t : ℕ) (ans : ForkAnswer) : Option ProcTree :=
  match s.curPcb t with
  | some (pid, cur) =>
      if cur.numThreads > 1 then some s
      else match ans with
        | .noCopy => some s
        | .noTcb => some { s with nextPid := s.nextPid + 1, nextTid := s.nextTid + 1 }
        | .made => some ((schedulerAddProcess s { Pcb.init with ppid := pid }).modify pid
            pcbIncChildren)
  | none => none

/-- `scheduler_add_new_thread` in thread `t`. `pcb_inc_threads_s` comes before the nodes are
allocated, and is not taken back. -/
def syscallThreadFork (s : ProcTree) (t : ℕ) (ans : ThreadForkAnswer) : Option ProcTree :=
  match s.curPcb t with
  | some (pid, _) =>
      match ans with
      | .noTcb => some { s with nextTid := s.nextTid + 1 }
      | .noNode => some { s.modify pid pcbIncThreads with nextTid := s.nextTid + 1 }
      | .made =>
          some { s.modify pid pcbIncThreads with
            threads := Function.update s.threads s.nextTid (.alive pid)
            nextTid := s.nextTid + 1 }
  | none => none

/-- The thread leaves `num_threads`, and the last one signals its status to `target`. -/
def leave (s : ProcTree) (pid target : ℤ) (cur : Pcb) (status : ℤ) (ans : EnqAnswer) : ProcTree :=
  if cur.numThreads - 1 = 0 then
    (s.modify pid pcbDecThreads).modify target (pcbSignalStatus status cur.originalTid ans)
  else s.modify pid pcbDecThreads

/-- `scheduler_make_current_zombie_safe`. -/
def makeZombie (s : ProcTree) (t : ℕ) (pid : ℤ) : ProcTree :=
  { s with
    threads := Function.update s.threads t (.zombie pid)
    zombiePool := s.zombiePool ++ [t] }

/-- `thr_vanish` in thread `t`. An orphan is a child of init's, whose pcb is read without a look at
the table. -/
def thrVanish (s : ProcTree) (t : ℕ) (status : ℤ) (ans : EnqAnswer) : Option ProcTree :=
  match s.curPcb t with
  | some (pid, cur) =>
      if (s.processes cur.ppid).isSome then
        some (makeZombie (leave s pid cur.ppid cur status ans) t pid)
      else if (s.processes initPid).isSome then
        some (makeZombie (leave (s.modify initPid pcbIncChildren) pid initPid cur status ans) t pid)
      else none
  | none => none

/-- `pcb_wait_on_status` and the rest of `syscall_wait_c_handler`, on the pcb of the caller: what
is collected, where nothing is the return value -2, and the pcb. -/
def pcbWaitOnStatus (pcb : Pcb) : Option (Option PcbMetadata × Pcb) :=
  if pcb.numChildProc = 0 then some (none, pcb)
  else if pcb.waitSem - 1 < 0 then none
  else match pcb.statusQueue with
    | [] => some (none, { pcb with waitSem := pcb.waitSem - 1 })
    | metadata :: q => some (some metadata, pcbDecChildren { pcb with
        waitSem := pcb.waitSem - 1, statusQueue := q })

/-- `syscall_wait_c_handler` in thread `t`. -/
def syscallWait (s : ProcTree) (t : ℕ) : Option ProcTree :=
  match s.curPcb t with
  | some (pid, cur) => (pcbWaitOnStatus cur).map fun r => s.modify pid fun _ => r.2
  | none => none

/-- A round of `tcb_pool_reap`. The pcb of a zombie may have been freed with an earlier one; then
`stale` is what its memory has for `num_threads`, and freeing it again is no step. -/
def tcbPoolReap (s : ProcTree) (stale : ℤ) : Option ProcTree :=
  match s.zombiePool with
  | [] => none
  | t :: q =>
      let s' := { s with threads := Function.update s.threads t .reaped, zombiePool := q }
      match s.threads t with
      | .zombie pid =>
          match s.processes pid with
          | some pcb =>
              if pcb.numThreads = 0 then
                some { s' with processes := Function.update s.processes pid none }
              else some s'
          | none => if stale = 0 then none else some s'
      | _ => none

/-- The operations. -/
inductive ProcOp where
  | fork (t : ℕ) (ans : ForkAnswer)
  | threadFork (t : ℕ) (ans : ThreadForkAnswer)
  | vanish (t : ℕ) (status : ℤ) (ans : EnqAnswer)
  | wait (t : ℕ)
  | reap (stale : ℤ)
  deriving DecidableEq

/-- An operation. -/
def procNext (s : ProcTree) : ProcOp → Option ProcTree
  | .fork t ans => syscallFork s t ans
  | .threadFork t ans => syscallThreadFork s t ans
  | .vanish t status ans => thrVanish s t status ans
  | .wait t => syscallWait s t
  | .reap stale => tcbPoolReap s stale

/-- What `scheduler_init` leaves: the pcb of the reaper, and init with its thread 2. -/
def procInit : ProcTree where
  processes := Function.update (Function.update (fun _ => none) (-1) (some Pcb.init)) initPid
    (some (pcbIncThreads { Pcb.init with originalTid := 2 }))
  threads := Function.update (fun _ => .unborn) 2 (.alive initPid)
  zombiePool := []
  nextPid := 2
  nextTid := 3

/-- The runs of a process tree. -/
def procMachine : Machine ProcTree ProcOp where
  init s := s = procInit
  step s a s' := procNext s a = some s'

/-! ### Every tree -/

/-- **A tree of processes** in which no `thread_fork` has failed halfway: `num_threads` counts the
threads that run, each in a process of the table; `wait_sem` has a unit for each status that is
queued; and the next pid and tid are new. -/
structure Grown (s : ProcTree) : Prop where
  threads : ∀ p pcb, s.processes p = some pcb →
    pcb.numThreads = census s.threads fun th => th = .alive p
  home : ∀ t p, s.threads t = .alive p → ∃ pcb, s.processes p = some pcb
  tokens : ∀ p pcb, s.processes p = some pcb → pcb.waitSem = pcb.statusQueue.length
  parents : ∀ p pcb, s.processes p = some pcb → pcb.ppid < s.nextPid
  freshPid : ∀ p, s.nextPid ≤ p → s.processes p = none
  freshTid : ∀ t, s.nextTid ≤ t → s.threads t = .unborn
  few : Few s.processes fun o => o ≠ none

variable {s s' : ProcTree} {p q pid : ℤ} {pcb cur : Pcb} {t : ℕ} {f : Pcb → Pcb}

lemma modify_eq_some : (s.modify q f).processes p = some pcb ↔
    ∃ pcb₀, s.processes p = some pcb₀ ∧ pcb = if p = q then f pcb₀ else pcb₀ := by
  by_cases hp : p = q
  · subst hp
    simp only [ProcTree.modify, Function.update_self, Option.map_eq_some_iff, if_true]
    exact exists_congr fun pcb₀ => and_congr_right fun _ => eq_comm
  · simp only [ProcTree.modify, Function.update_of_ne hp, if_neg hp]
    constructor
    · exact fun h => ⟨pcb, h, rfl⟩
    · rintro ⟨_, h, rfl⟩
      exact h

lemma modify_of_mem (h : s.processes p = some pcb) :
    (s.modify q f).processes p = some (if p = q then f pcb else pcb) :=
  modify_eq_some.mpr ⟨pcb, h, rfl⟩

lemma modify_eq_none : (s.modify q f).processes p = none ↔ s.processes p = none := by
  by_cases hp : p = q
  · subst hp
    simp only [ProcTree.modify, Function.update_self, Option.map_eq_none_iff]
  · simp only [ProcTree.modify, Function.update_of_ne hp]

lemma curPcb_eq_some : s.curPcb t = some (pid, cur) ↔
    s.threads t = .alive pid ∧ s.processes pid = some cur := by
  unfold ProcTree.curPcb
  constructor
  · intro h
    split at h
    · next p hp =>
        obtain ⟨pcb, hpcb, heq⟩ := Option.map_eq_some_iff.mp h
        cases heq
        exact ⟨hp, hpcb⟩
    · cases h
  · rintro ⟨hth, hpcb⟩
    simp only [hth, hpcb, Option.map_some]

namespace Grown

lemma few_alive (h : Grown s) (p : ℤ) : Few s.threads fun th => th = .alive p := by
  refine (Set.finite_Iio s.nextTid).subset fun t ht => ?_
  by_contra hge
  have hunborn := h.freshTid t (not_lt.mp hge)
  change s.threads t = .alive p at ht
  rw [hunborn] at ht
  cases ht

lemma pid_lt (h : Grown s) (hp : s.processes p = some pcb) : p < s.nextPid := by
  by_contra hge
  rw [h.freshPid p (not_lt.mp hge)] at hp
  cases hp

/-- A process runs if and only if its `num_threads` is not zero. -/
lemma numThreads_ne_zero (h : Grown s) (hp : s.processes p = some pcb) :
    pcb.numThreads ≠ 0 ↔ ∃ t, s.threads t = .alive p := by
  rw [h.threads p pcb hp, ← census_pos (h.few_alive p), Nat.pos_iff_ne_zero]
  exact_mod_cast Iff.rfl

/-- The thread that runs is one of `num_threads`. -/
lemma numThreads_pos (h : Grown s) (hcur : s.curPcb t = some (pid, cur)) : 0 < cur.numThreads := by
  obtain ⟨hth, hpcb⟩ := curPcb_eq_some.mp hcur
  have hpos : 0 < census s.threads fun th => th = .alive pid :=
    (census_pos (h.few_alive pid)).mpr ⟨t, hth⟩
  rw [h.threads pid cur hpcb]
  exact_mod_cast hpos

end Grown

/-! ### Every operation keeps the tree -/

/-- A change of a pcb that keeps what the tree says of it. -/
structure Keeps (f : Pcb → Pcb) (pcb : Pcb) : Prop where
  ppid : (f pcb).ppid = pcb.ppid
  numThreads : (f pcb).numThreads = pcb.numThreads
  tokens : (f pcb).waitSem - (f pcb).statusQueue.length = pcb.waitSem - pcb.statusQueue.length

lemma keeps_incChildren (pcb : Pcb) : Keeps pcbIncChildren pcb := ⟨rfl, rfl, rfl⟩

lemma keeps_signalStatus (status tid : ℤ) (ans : EnqAnswer) (pcb : Pcb) :
    Keeps (pcbSignalStatus status tid ans) pcb := by
  cases ans with
  | stored =>
      refine ⟨rfl, rfl, ?_⟩
      simp only [pcbSignalStatus, List.length_append, List.length_singleton]
      push_cast
      omega
  | noMetadata => exact ⟨rfl, rfl, rfl⟩
  | noNode => exact ⟨rfl, rfl, rfl⟩

namespace Grown

lemma modify (h : Grown s) (hkeeps : ∀ pcb, s.processes q = some pcb → Keeps f pcb) :
    Grown (s.modify q f) := by
  have hkeep : ∀ p pcb, (s.modify q f).processes p = some pcb → ∃ pcb₀,
      s.processes p = some pcb₀ ∧ pcb.ppid = pcb₀.ppid ∧ pcb.numThreads = pcb₀.numThreads ∧
        pcb.waitSem - pcb.statusQueue.length = pcb₀.waitSem - pcb₀.statusQueue.length := by
    intro p pcb hp
    obtain ⟨pcb₀, hp₀, heq⟩ := modify_eq_some.mp hp
    refine ⟨pcb₀, hp₀, ?_⟩
    by_cases hpq : p = q
    · rw [if_pos hpq] at heq
      subst heq hpq
      exact ⟨(hkeeps pcb₀ hp₀).ppid, (hkeeps pcb₀ hp₀).numThreads, (hkeeps pcb₀ hp₀).tokens⟩
    · rw [if_neg hpq] at heq
      subst heq
      exact ⟨rfl, rfl, rfl⟩
  refine ⟨fun p pcb hp => ?_, fun t p ht => ?_, fun p pcb hp => ?_, fun p pcb hp => ?_,
    fun p hp => modify_eq_none.mpr (h.freshPid p hp), h.freshTid, h.few.update q _⟩
  · obtain ⟨pcb₀, hp₀, -, hthreads, -⟩ := hkeep p pcb hp
    rw [hthreads]
    exact h.threads p pcb₀ hp₀
  · obtain ⟨pcb, hpcb⟩ := h.home t p ht
    exact ⟨_, modify_of_mem hpcb⟩
  · obtain ⟨pcb₀, hp₀, -, -, htokens⟩ := hkeep p pcb hp
    have hzero := h.tokens p pcb₀ hp₀
    omega
  · obtain ⟨pcb₀, hp₀, hppid, -, -⟩ := hkeep p pcb hp
    rw [hppid]
    exact h.parents p pcb₀ hp₀

/-- **A thread comes or goes**, and `num_threads` of its process with it. -/
lemma move (h : Grown s) {th : Thread} {d : ℤ} {z : List ℕ} {n : ℕ}
    (hother : ∀ p, p ≠ pid → (s.threads t = .alive p ↔ th = .alive p))
    (hcur : s.processes pid = some cur)
    (hcount : cur.numThreads + d + (if s.threads t = .alive pid then 1 else 0) =
      cur.numThreads + if th = .alive pid then 1 else 0)
    (hfresh : ∀ u, n ≤ u → Function.update s.threads t th u = .unborn) :
    Grown { s.modify pid fun pcb => { pcb with numThreads := pcb.numThreads + d } with
      threads := Function.update s.threads t th, zombiePool := z, nextTid := n } := by
  refine ⟨fun p pcb hp => ?_, fun u p hu => ?_, fun p pcb hp => ?_, fun p pcb hp => ?_,
    fun p hp => modify_eq_none.mpr (h.freshPid p hp), hfresh, h.few.update pid _⟩
  · obtain ⟨pcb₀, hp₀, rfl⟩ := modify_eq_some.mp hp
    have hthreads := h.threads p pcb₀ hp₀
    have hcensus := census_update (h.few_alive p) t th
    by_cases hpid : p = pid
    · subst hpid
      rw [hcur, Option.some.injEq] at hp₀
      subst hp₀
      rw [if_pos rfl]
      change cur.numThreads + d = census (Function.update s.threads t th) fun th => th = .alive p
      have hcast : (census (Function.update s.threads t th) (fun th => th = .alive p) : ℤ) +
          (if s.threads t = .alive p then 1 else 0) =
          census s.threads (fun th => th = .alive p) + if th = .alive p then 1 else 0 := by
        exact_mod_cast hcensus
      omega
    · rw [if_neg hpid, hthreads]
      change _ = ((census (Function.update s.threads t th) fun th => th = .alive p : ℕ) : ℤ)
      rw [census_update_same (h.few_alive p) t th (hother p hpid).symm]
  · by_cases hpid : p = pid
    · subst hpid
      exact ⟨_, modify_of_mem hcur⟩
    · have hold : s.threads u = .alive p := by
        by_cases hut : u = t
        · subst hut
          change Function.update s.threads u th u = .alive p at hu
          rw [Function.update_self] at hu
          exact (hother p hpid).mpr hu
        · change Function.update s.threads t th u = .alive p at hu
          rwa [Function.update_of_ne hut] at hu
      obtain ⟨pcb, hpcb⟩ := h.home u p hold
      exact ⟨_, modify_of_mem hpcb⟩
  · obtain ⟨pcb₀, hp₀, rfl⟩ := modify_eq_some.mp hp
    have htokens := h.tokens p pcb₀ hp₀
    split_ifs <;> exact htokens
  · obtain ⟨pcb₀, hp₀, rfl⟩ := modify_eq_some.mp hp
    have hparents := h.parents p pcb₀ hp₀
    split_ifs <;> exact hparents

/-- **`fork`**: the new process has the next pid and one thread, with the next tid. -/
lemma addProcess (h : Grown s) {pcb₀ : Pcb} (hppid : pcb₀.ppid < s.nextPid)
    (hthreads : pcb₀.numThreads = 0) (htokens : pcb₀.waitSem = pcb₀.statusQueue.length) :
    Grown (schedulerAddProcess s pcb₀) := by
  -- the numbers are new, so no thread is of the process yet
  have hnone : s.processes s.nextPid = none := h.freshPid s.nextPid le_rfl
  have hunborn : s.threads s.nextTid = .unborn := h.freshTid s.nextTid le_rfl
  have hnobody : ∀ t, s.threads t ≠ .alive s.nextPid := by
    intro t ht
    obtain ⟨pcb, hpcb⟩ := h.home t _ ht
    rw [hnone] at hpcb
    cases hpcb
  refine ⟨fun p pcb hp => ?_, fun t p ht => ?_, fun p pcb hp => ?_, fun p pcb hp => ?_,
    fun p hp => ?_, fun t ht => ?_, h.few.update s.nextPid _⟩
  · change Function.update s.processes s.nextPid _ p = some pcb at hp
    change pcb.numThreads = (census (Function.update s.threads s.nextTid (.alive s.nextPid))
      fun th => th = .alive p : ℕ)
    by_cases hpid : p = s.nextPid
    · subst hpid
      rw [Function.update_self] at hp
      cases hp
      -- the new thread is the one that the new process counts
      rw [census_update_gain (h.few_alive _) s.nextTid (hnobody s.nextTid) rfl,
        census_of_none hnobody]
      change pcb₀.numThreads + 1 = ((0 + 1 : ℕ) : ℤ)
      omega
    · rw [Function.update_of_ne hpid] at hp
      -- the other processes have the threads they had
      rw [h.threads p pcb hp, census_update_same (h.few_alive p)]
      rw [hunborn]
      constructor
      · rintro heq
        cases heq
        exact absurd rfl hpid
      · nofun
  · change Function.update s.threads s.nextTid (.alive s.nextPid) t = .alive p at ht
    change ∃ pcb, Function.update s.processes s.nextPid _ p = some pcb
    by_cases hpid : p = s.nextPid
    · subst hpid
      exact ⟨_, Function.update_self ..⟩
    · rw [Function.update_of_ne hpid]
      by_cases hnew : t = s.nextTid
      · subst hnew
        rw [Function.update_self] at ht
        cases ht
        exact absurd rfl hpid
      · rw [Function.update_of_ne hnew] at ht
        exact h.home t p ht
  · change Function.update s.processes s.nextPid _ p = some pcb at hp
    by_cases hpid : p = s.nextPid
    · subst hpid
      rw [Function.update_self] at hp
      cases hp
      exact htokens
    · rw [Function.update_of_ne hpid] at hp
      exact h.tokens p pcb hp
  · change Function.update s.processes s.nextPid _ p = some pcb at hp
    change pcb.ppid < s.nextPid + 1
    by_cases hpid : p = s.nextPid
    · subst hpid
      rw [Function.update_self] at hp
      cases hp
      exact hppid.trans (lt_add_one s.nextPid)
    · rw [Function.update_of_ne hpid] at hp
      exact (h.parents p pcb hp).trans (lt_add_one s.nextPid)
  · change s.nextPid + 1 ≤ p at hp
    change Function.update s.processes s.nextPid _ p = none
    rw [Function.update_of_ne (by omega)]
    exact h.freshPid p (by omega)
  · change s.nextTid + 1 ≤ t at ht
    change Function.update s.threads s.nextTid _ t = .unborn
    rw [Function.update_of_ne (by omega)]
    exact h.freshTid t (by omega)

/-- A pid and a tid that a failed `fork` has taken. -/
lemma skip (h : Grown s) {m : ℤ} {n : ℕ} (hm : s.nextPid ≤ m) (hn : s.nextTid ≤ n) :
    Grown { s with nextPid := m, nextTid := n } where
  threads := h.threads
  home := h.home
  tokens := h.tokens
  parents p pcb hp := (h.parents p pcb hp).trans_le hm
  freshPid p hp := h.freshPid p (hm.trans hp)
  freshTid t ht := h.freshTid t (hn.trans ht)
  few := h.few

/-- A zombie is reaped. -/
lemma reapTcb (h : Grown s) {z : List ℕ} (hth : s.threads t = .zombie pid) :
    Grown { s with threads := Function.update s.threads t .reaped, zombiePool := z } := by
  refine ⟨fun p pcb hp => ?_, fun u p hu => ?_, h.tokens, h.parents, h.freshPid, fun u hu => ?_,
    h.few⟩
  · change pcb.numThreads =
      (census (Function.update s.threads t .reaped) fun th => th = .alive p : ℕ)
    rw [h.threads p pcb hp, census_update_same (h.few_alive p)]
    rw [hth]
    exact ⟨nofun, nofun⟩
  · change Function.update s.threads t .reaped u = .alive p at hu
    by_cases hut : u = t
    · subst hut
      rw [Function.update_self] at hu
      cases hu
    · rw [Function.update_of_ne hut] at hu
      exact h.home u p hu
  · change Function.update s.threads t .reaped u = .unborn
    have hut : u ≠ t := by
      rintro rfl
      rw [h.freshTid u hu] at hth
      cases hth
    rw [Function.update_of_ne hut]
    exact h.freshTid u hu

/-- A process with no threads is removed. -/
lemma removePcb (h : Grown s) (hpcb : s.processes pid = some cur) (hzero : cur.numThreads = 0) :
    Grown { s with processes := Function.update s.processes pid none } := by
  have hold : ∀ p pcb, Function.update s.processes pid none p = some pcb →
      s.processes p = some pcb := by
    intro p pcb hp
    by_cases hpid : p = pid
    · subst hpid
      rw [Function.update_self] at hp
      cases hp
    · rwa [Function.update_of_ne hpid] at hp
  refine ⟨fun p pcb hp => h.threads p pcb (hold p pcb hp), fun t p ht => ?_,
    fun p pcb hp => h.tokens p pcb (hold p pcb hp),
    fun p pcb hp => h.parents p pcb (hold p pcb hp), fun p hp => ?_, h.freshTid,
    h.few.update pid none⟩
  · have hpid : p ≠ pid := by
      rintro rfl
      exact (h.numThreads_ne_zero hpcb).mpr ⟨t, ht⟩ hzero
    obtain ⟨pcb, hp⟩ := h.home t p ht
    exact ⟨pcb, (Function.update_of_ne hpid ..).trans hp⟩
  · change Function.update s.processes pid none p = none
    by_cases hpid : p = pid
    · subst hpid
      exact Function.update_self ..
    · rw [Function.update_of_ne hpid]
      exact h.freshPid p hp

end Grown

/-- **A thread becomes a zombie**, and leaves `num_threads`. -/
lemma Grown.vanish (h : Grown s) (hcur : s.curPcb t = some (pid, cur)) :
    Grown (makeZombie (s.modify pid pcbDecThreads) t pid) := by
  obtain ⟨hth, hpid⟩ := curPcb_eq_some.mp hcur
  refine h.move (d := -1) ?_ hpid ?_ ?_
  · intro p hp
    rw [hth]
    exact ⟨fun heq => absurd (Thread.alive.inj heq).symm hp, nofun⟩
  · rw [hth, if_pos rfl, if_neg nofun]
    omega
  · intro u hu
    have hut : u ≠ t := by
      rintro rfl
      rw [h.freshTid u hu] at hth
      cases hth
    rw [Function.update_of_ne hut]
    exact h.freshTid u hu

lemma Grown.leave (h : Grown s) {pcb₀ : Pcb} (hcur : s.curPcb t = some (pid, pcb₀)) (target : ℤ)
    (cur : Pcb) (status : ℤ) (ans : EnqAnswer) :
    Grown (makeZombie (leave s pid target cur status ans) t pid) := by
  unfold Processes.leave
  split_ifs with hlast
  · exact (h.vanish hcur).modify fun pcb _ => keeps_signalStatus status cur.originalTid ans pcb
  · exact h.vanish hcur

lemma grown_thrVanish (h : Grown s) {status : ℤ} {ans : EnqAnswer}
    (hstep : thrVanish s t status ans = some s') : Grown s' := by
  unfold thrVanish at hstep
  split at hstep
  · next pid cur hcur =>
      split_ifs at hstep with hparent hinit
      · cases hstep
        exact h.leave hcur cur.ppid cur status ans
      · cases hstep
        obtain ⟨hth, hpid⟩ := curPcb_eq_some.mp hcur
        have hcur₁ : (s.modify initPid pcbIncChildren).curPcb t = _ :=
          curPcb_eq_some.mpr ⟨hth, modify_of_mem hpid⟩
        exact (h.modify fun pcb _ => keeps_incChildren pcb).leave hcur₁ initPid cur status ans
  · cases hstep

/-- `thr_vanish` leaves every process in the table. -/
lemma thrVanish_eq_none {status : ℤ} {ans : EnqAnswer}
    (hstep : thrVanish s t status ans = some s') :
    s'.processes p = none ↔ s.processes p = none := by
  have hleave (s : ProcTree) (pid target : ℤ) (cur : Pcb) :
      (leave s pid target cur status ans).processes p = none ↔ s.processes p = none := by
    unfold leave
    split_ifs with hlast
    · exact modify_eq_none.trans modify_eq_none
    · exact modify_eq_none
  unfold thrVanish at hstep
  split at hstep
  · split_ifs at hstep with hparent hinit
    · cases hstep
      exact hleave ..
    · cases hstep
      exact (hleave ..).trans modify_eq_none
  · cases hstep

/-- `num_child_proc` less the statuses that are queued. -/
def Pcb.unqueued (pcb : Pcb) : ℤ := pcb.numChildProc - pcb.statusQueue.length

/-- **What `wait` returns with**: a status less in the queue, and a child less, or the pcb as it
was. -/
lemma pcbWaitOnStatus_spec {r : Option PcbMetadata × Pcb} (h : pcbWaitOnStatus cur = some r)
    (htokens : cur.waitSem = cur.statusQueue.length) :
    r.2.ppid = cur.ppid ∧ r.2.numThreads = cur.numThreads ∧
      r.2.waitSem = r.2.statusQueue.length ∧ r.2.unqueued = cur.unqueued := by
  unfold pcbWaitOnStatus at h
  split_ifs at h with hzero hblock
  · cases h
    exact ⟨rfl, rfl, htokens, rfl⟩
  · split at h
    · next hnil =>
        rw [hnil, List.length_nil] at htokens
        omega
    · next metadata q hq =>
        cases h
        rw [hq, List.length_cons] at htokens
        refine ⟨rfl, rfl, ?_, ?_⟩
        · simp only [pcbDecChildren]
          omega
        · simp only [pcbDecChildren, Pcb.unqueued, hq, List.length_cons]
          push_cast
          omega

/-! ### The first tree -/

lemma procInit_eq_some (h : procInit.processes p = some pcb) :
    p = initPid ∧ pcb = pcbIncThreads { Pcb.init with originalTid := 2 } ∨
      p = -1 ∧ pcb = Pcb.init := by
  by_cases hinit : p = initPid
  · subst hinit
    cases h
    exact .inl ⟨rfl, rfl⟩
  · by_cases hreaper : p = -1
    · subst hreaper
      cases h
      exact .inr ⟨rfl, rfl⟩
    · simp only [procInit, Function.update_of_ne hinit, Function.update_of_ne hreaper] at h
      cases h

lemma procInit_ppid (h : procInit.processes p = some pcb) : pcb.ppid = -1 := by
  rcases procInit_eq_some h with ⟨-, rfl⟩ | ⟨-, rfl⟩ <;> rfl

lemma grown_init : Grown procInit := by
  have hthread : ∀ t p, procInit.threads t = .alive p ↔ t = 2 ∧ p = initPid := by
    intro t p
    by_cases ht : t = 2
    · subst ht
      exact ⟨fun h => ⟨rfl, (Thread.alive.inj h).symm⟩, fun h => h.2 ▸ rfl⟩
    · simp only [procInit, Function.update_of_ne ht]
      exact ⟨nofun, fun h => absurd h.1 ht⟩
  have hcount (p : ℤ) : census procInit.threads (fun th => th = .alive p) =
      if Thread.alive initPid = .alive p then 1 else 0 := census_single 2 nofun
  refine ⟨fun p pcb hp => ?_, fun t p ht => ?_, fun p pcb hp => ?_, fun p pcb hp => ?_,
    fun p hp => ?_, fun t ht => ?_, ?_⟩
  · rw [hcount p]
    rcases procInit_eq_some hp with ⟨rfl, rfl⟩ | ⟨rfl, rfl⟩
    · rfl
    · rfl
  · obtain ⟨-, rfl⟩ := (hthread t p).mp ht
    exact ⟨_, rfl⟩
  · rcases procInit_eq_some hp with ⟨-, rfl⟩ | ⟨-, rfl⟩ <;> rfl
  · rw [procInit_ppid hp]
    decide
  · cases hpcb : procInit.processes p with
    | none => rfl
    | some pcb =>
        change (2 : ℤ) ≤ p at hp
        unfold initPid at *
        rcases procInit_eq_some hpcb with ⟨rfl, -⟩ | ⟨rfl, -⟩
        · exact absurd hp (by decide)
        · exact absurd hp (by decide)
  · change (3 : ℕ) ≤ t at ht
    have hne : t ≠ 2 := by omega
    simp only [procInit, Function.update_of_ne hne]
  · exact ((Few.of_none fun _ h => h rfl).update _ _).update _ _

end ShrekOS.Processes
