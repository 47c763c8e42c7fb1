/-
The keyboard's interrupts over the threads of the kernel: `c_keyboard_handler` runs on the stack
of the thread that it interrupts, and takes mutexes.

* `keyboardWritePath`: `keyboard_write` as the list of its steps;
* `KbThread`, `kbStep`, `kbThreads`: a thread with the handlers on its stack, and the system;
* `KbThread.SelfWait`: the handler waits for a mutex of its own thread;
* `CleanInterrupt`, `Clean`: the condition on an interrupt, and what it says of a handler's steps;
* `noSelfWait_of_clean`: **no handler waits for its own thread** in the runs of such interrupts;
* `not_noSelfWait_lineRun`: a run with another interrupt.

The paths of the threads are those of `LockPaths`, where a typed line is one step; here it is the
handler's. A scancode without a character takes no mutex, and `putbyte` takes none.
-/
import ShrekOS.Locks.LockPaths

namespace ShrekOS.Locking

open Kit

/-! ### The handler -/

/-- `keyboard_write` of the character `c`, which `write_to_buffer` writes or refuses:
`sem_get_value` on the keyboard's semaphore, and `sem_signal` when a line is complete. -/
def keyboardWritePath (c : UInt8) (written : Bool) : List LockOp :=
  [.lock .keyboard, .lock (.sem .keyboard), .unlock (.sem .keyboard)] ++
    (if written ∧ c = 10 then semSignal .keyboard else []) ++ [.unlock .keyboard]

/-- A thread: its system call, and the handlers on its stack, the last one first. -/
structure KbThread where
  base : Place
  handlers : List Place
  deriving DecidableEq

/-- The mutexes that a thread holds, in its system call or in a handler. -/
def KbThread.held (p : KbThread) : List KMutex := p.handlers.flatMap Place.held ++ p.base.held

/-- An interrupt with a character, or a step of the thread. -/
inductive KbMove where
  | key (c : UInt8) (written : Bool)
  | run (mv : LockMove)
  deriving DecidableEq

/-- The step of a thread: that of the handler on top of its stack, which returns when it has no
step left, or that of its system call. -/
def kbStep (s : World) (t : ℕ) (p : KbThread) : KbMove → Option (World × KbThread)
  | .key c written =>
      if t < s.nextTid then
        some (s, { p with handlers := ⟨[], keyboardWritePath c written⟩ :: p.handlers })
      else none
  | .run mv =>
      match p.handlers with
      | [] =>
          -- a line is typed by the handler
          if mv = .line then none
          else (lockStep s t p.base mv).map fun r => (r.1, { p with base := r.2 })
      | h :: hs =>
          match h.todo with
          | [] => if mv = .run then some (s, { p with handlers := hs }) else none
          | op :: r =>
              (perform s t h.held r op mv).map fun r => (r.1, { p with handlers := r.2 :: hs })

/-- The threads of the kernel, with the keyboard's interrupts. -/
def kbThreads : Threads World KbThread KbMove where
  init s := ∃ idle reaper init, [idle, reaper, init].Nodup ∧
    s = (bootWorld idle reaper init, fun t => ⟨bootPlaces t, []⟩)
  step := kbStep

/-- The handler that runs on a thread's stack is before the `mutex_lock` of a mutex that this
thread holds. -/
def KbThread.SelfWait (p : KbThread) : Prop :=
  ∃ h hs m r, p.handlers = h :: hs ∧ h.todo = .lock m :: r ∧ m ∈ p.held

/-- No handler waits for the thread that it interrupted. -/
def NoSelfWait (s : World × (ℕ → KbThread)) : Prop := ∀ t, ¬ (s.2 t).SelfWait

/-- An interrupt comes when the thread holds none of the mutexes that the handler takes: those of
the keyboard and of its semaphore and, on a complete line, `heap_lock`. -/
def CleanInterrupt (s : World × (ℕ → KbThread)) (a : ℕ × KbMove) : Prop :=
  match a.2 with
  | .key c written => .keyboard ∉ (s.2 a.1).held ∧ .sem .keyboard ∉ (s.2 a.1).held ∧
      (written ∧ c = 10 → .heap ∉ (s.2 a.1).held)
  | .run _ => True

instance (s : World × (ℕ → KbThread)) : ∀ a, Decidable (CleanInterrupt s a)
  | (_, .key _ _) => inferInstanceAs (Decidable (_ ∧ _ ∧ _))
  | (_, .run _) => inferInstanceAs (Decidable True)

/-! ### A handler takes what is free on its stack -/

/-- The steps take no mutex that is held by them or below them. After its increment `sem_signal`
may take `heap_lock`, and unlocks the semaphore. -/
def Clean (below : List KMutex) : List KMutex → List LockOp → Prop
  | _, [] => True
  | held, .lock m :: r => m ∉ held ∧ m ∉ below ∧ Clean below (m :: held) r
  | held, .unlock m :: r => Clean below (held.erase m) r
  | held, .data _ :: r => Clean below held r
  | held, .semInc s :: r => .heap ∉ held ∧ .heap ∉ below ∧ Clean below (held.erase (.sem s)) r
  | _, _ :: _ => False

variable {below held : List KMutex} {r : List LockOp} {s s' : World} {t : ℕ} {p p' : KbThread}

lemma clean_semSignalled {sem : KSem} (v : Sem) (hheap : .heap ∉ held) (hbelow : .heap ∉ below)
    (h : Clean below (held.erase (.sem sem)) r) :
    Clean below held (semSignalled sem v ++ r) := by
  unfold semSignalled
  split_ifs
  · refine ⟨hheap, hbelow, ?_⟩
    change Clean below (((KMutex.heap :: held).erase .heap).erase (.sem sem)) r
    rwa [List.erase_cons_head]
  · exact h

/-- **The steps of `keyboard_write`** take what is free when the interrupt is clean. -/
lemma clean_keyboardWritePath {c : UInt8} {written : Bool} (hkb : .keyboard ∉ below)
    (hsem : .sem .keyboard ∉ below) (hheap : written ∧ c = 10 → .heap ∉ below) :
    Clean below [] (keyboardWritePath c written) := by
  unfold keyboardWritePath
  refine ⟨List.not_mem_nil, hkb, by decide, hsem, ?_⟩
  split_ifs with hline
  · exact ⟨by decide, hsem, by decide, hheap hline, trivial⟩
  · trivial

/-- **A step of a handler** leaves it with clean steps. -/
lemma Clean.perform {op : LockOp} {mv : LockMove} {p' : Place} (h : Clean below held (op :: r))
    (hstep : perform s t held r op mv = some (s', p')) : Clean below p'.held p'.todo := by
  cases op with
  | lock m =>
      cases mv with
      | run =>
          change (if m ∈ s.locked then none else _) = _ at hstep
          split_ifs at hstep
          cases hstep
          exact h.2.2
      | _ => cases hstep
  | unlock m =>
      cases mv with
      | run => cases hstep; exact h
      | _ => cases hstep
  | data op =>
      cases mv with
      | run => cases hstep; exact h
      | _ => cases hstep
  | semInc sem =>
      cases mv with
      | run => cases hstep; exact clean_semSignalled _ h.1 h.2.1 h.2.2
      | _ => cases hstep
  | _ => exact h.elim

/-! ### The stack of a thread -/

/-- Each handler has clean steps over what is held below it. -/
def CleanStack (base : Place) : List Place → Prop
  | [] => True
  | h :: hs => Clean (hs.flatMap Place.held ++ base.held) h.held h.todo ∧ CleanStack base hs

/-- A handler on a clean stack does not wait for its own thread. -/
lemma not_selfWait_of_cleanStack (h : CleanStack p.base p.handlers) : ¬ p.SelfWait := by
  rintro ⟨top, hs, m, r, hstack, htodo, hmem⟩
  rw [hstack] at h
  have htop := h.1
  rw [htodo] at htop
  obtain ⟨hown, hbelow, -⟩ := htop
  rw [KbThread.held, hstack, List.flatMap_cons, List.append_assoc, List.mem_append] at hmem
  exact hmem.elim hown hbelow

/-- **A step of a thread** keeps its stack clean when the interrupt is. -/
lemma cleanStack_step {pc : ℕ → KbThread} {mv : KbMove} (h : CleanStack (pc t).base (pc t).handlers)
    (hG : CleanInterrupt (s, pc) (t, mv)) (hstep : kbStep s t (pc t) mv = some (s', p')) :
    CleanStack p'.base p'.handlers := by
  generalize hp : pc t = p at h hstep
  rcases p with ⟨base, handlers⟩
  cases mv with
  | key c written =>
      change (if t < s.nextTid then _ else none) = _ at hstep
      split_ifs at hstep
      cases hstep
      obtain ⟨hkb, hsem, hheap⟩ := hG
      simp only [hp] at hkb hsem hheap
      exact ⟨clean_keyboardWritePath hkb hsem hheap, h⟩
  | run mv =>
      cases handlers with
      | nil =>
          change (if mv = .line then none else _) = _ at hstep
          split_ifs at hstep
          obtain ⟨x, -, hx⟩ := Option.map_eq_some_iff.mp hstep
          cases hx
          trivial
      | cons top hs =>
          rcases top with ⟨held, todo⟩
          cases todo with
          | nil =>
              change (if mv = .run then _ else none) = _ at hstep
              split_ifs at hstep
              cases hstep
              exact h.2
          | cons op r =>
              obtain ⟨x, hx, heq⟩ := Option.map_eq_some_iff.mp hstep
              cases heq
              exact ⟨h.1.perform hx, h.2⟩

/-- **No handler waits for its own thread**: in the runs whose interrupts are clean no thread holds,
below a handler, what the handler takes. -/
theorem noSelfWait_of_clean {s : World × (ℕ → KbThread)}
    (h : kbThreads.machine.Reach CleanInterrupt s) : NoSelfWait s := by
  have hinv : Threads.Annotated (fun _ (_ : Unit) => True)
      (fun _ _ _ p => CleanStack p.base p.handlers) s := by
    refine Threads.annotated_of_reach ?_ ?_ h
    · rintro _ ⟨idle, reaper, init, -, rfl⟩
      exact ⟨(), trivial, fun t => trivial⟩
    · intro s pc g t a s' p' _ hA hG hstep
      exact ⟨(), trivial, cleanStack_step (hA t) hG hstep, fun u _ => hA u⟩
  obtain ⟨_, -, hclean⟩ := hinv
  exact fun t => not_selfWait_of_cleanStack (hclean t)

/-! ### A character is typed, and a line -/

/-- Steps of a thread. -/
def kbSteps (t n : ℕ) : List (ℕ × KbMove) := List.replicate n (t, .run .run)

/-- A character is typed while the thread is inside the `malloc` of its `fork`. -/
def heapRun : List (ℕ × KbMove) :=
  (2, .run (.call .fork)) :: kbSteps 2 4 ++ (2, .key 97 true) :: kbSteps 2 2

/-- A line is typed, a thread takes it from the semaphore, and a character is typed while it copies
the line. -/
def lineRun : List (ℕ × KbMove) :=
  (2, .key 10 true) :: kbSteps 2 8 ++ (2, .run (.call .readline)) :: kbSteps 2 5 ++
    [(2, .key 97 true)]

/-- A thread after a run. -/
def kbView (t : ℕ) (s : World × (ℕ → KbThread)) : KbThread := s.2 t

/-- An interrupt inside `malloc` is clean when no line is complete. -/
theorem noSelfWait_of_clean_heapRun : ∃ s,
    Machine.replay (Machine.guarded CleanInterrupt kbThreads.next)
        (bootWorld 10 11 12, fun t => ⟨bootPlaces t, []⟩) heapRun = some s ∧
      (kbView 2 s).held = [.sem .keyboard, .keyboard, .heap] ∧ NoSelfWait s := by
  have hrun : (Machine.replay (Machine.guarded CleanInterrupt kbThreads.next)
      (bootWorld 10 11 12, fun t => ⟨bootPlaces t, []⟩) heapRun).map
        (fun s => (kbView 2 s).held) = some [.sem .keyboard, .keyboard, .heap] := by
    decide +kernel
  rw [Option.map_eq_some_iff] at hrun
  obtain ⟨s, hs, hview⟩ := hrun
  refine ⟨s, hs, hview, noSelfWait_of_clean ?_⟩
  exact Machine.reach_of_guarded (fun _ _ _ h => h) heapRun
    (.init ⟨10, 11, 12, by decide, rfl⟩) hs

/-- **A handler that waits for its own thread**: the character comes between the `mutex_lock` and
the `mutex_unlock` of `keyboard_read`. -/
theorem not_noSelfWait_lineRun :
    ¬ ∀ s, kbThreads.machine.Reachable s → NoSelfWait s := by
  have hrun : (Machine.replay kbThreads.next
      (bootWorld 10 11 12, fun t => ⟨bootPlaces t, []⟩) lineRun).map (kbView 2) =
        some ⟨⟨[.keyboard], [.unlock .keyboard]⟩, [⟨[], keyboardWritePath 97 true⟩]⟩ := by
    decide +kernel
  rw [Option.map_eq_some_iff] at hrun
  obtain ⟨s, hs, hview⟩ := hrun
  have hreach : kbThreads.machine.Reachable s :=
    Machine.reach_of_replay (fun _ _ _ h => h) lineRun (fun _ _ _ => trivial)
      (.init ⟨10, 11, 12, by decide, rfl⟩) hs
  intro hall
  refine hall s hreach 2 ?_
  change (kbView 2 s).SelfWait
  rw [hview]
  exact ⟨_, _, _, _, rfl, rfl, .head _⟩

end ShrekOS.Locking
