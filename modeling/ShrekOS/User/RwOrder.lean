/-
In which order `user/libthread/rwlock.c` grants its lock to readers and writers.

* `RwEvent`, `rwHistory`: the runs of the lock with a log of the calls of readers, of the
  waits of writers and of the grants;
* `WriterFirst`: a reader that calls while a writer waits is granted the lock after it, as
  the comment of the file promises;
* `Ahead`, `Patient`: **the condition**: such a reader does not find `writer_locked` clear;
* `writerFirst_of_patient`: with the condition the writers come first, and
  `not_writerFirst_of_impatient`: where it fails the next two steps of the reader break the
  order.
-/
import ShrekOS.User.RwLock

namespace ShrekOS

open Kit

/-- A call of `rwlock_lock(RWLOCK_READ)`, a wait in `rwlock_lock(RWLOCK_WRITE)`, and a lock
that is granted. -/
inductive RwEvent where
  | begins (t : ℕ)
  | waits (t : ℕ)
  | granted (t : ℕ) (type : RwType)
  deriving DecidableEq

/-- What is logged of a step. -/
def rwEvents (s : RwLock) (t : ℕ) : RwPc → RwAct → List RwEvent
  | .out, .lock .read => [.begins t]
  | .test .write, .run => if s.MustWait .write then [.waits t] else []
  | .take type, .run => [.granted t type]
  | _, _ => []

/-- A state of the lock and of the threads, with the log. -/
abbrev RwLogged : Type := (RwLock × (ℕ → RwPc)) × List RwEvent

/-- The step of a thread, with the log. -/
def rwNext (r : RwLogged) (a : ℕ × RwAct) : Option RwLogged :=
  (rwThreads.next r.1 a).map fun c => (c, r.2 ++ rwEvents r.1.1 a.1 (r.1.2 a.1) a.2)

/-- The runs with their log. -/
def rwHistory : Machine RwLogged (ℕ × RwAct) where
  init r := rwThreads.init r.1 ∧ r.2 = []
  step r a r' := rwNext r a = some r'

/-- **Writers first**: a reader that calls after a writer has waited is granted the lock after
the writer. -/
def WriterFirst (log : List RwEvent) : Prop :=
  ∀ w r l₁ l₂ l₃ l₄, log = l₁ ++ .waits w :: (l₂ ++ .begins r :: (l₃ ++ .granted r .read :: l₄)) →
    .granted w .write ∈ l₂ ++ l₃

/-- The writer has waited before the last call of the reader, and has not got the lock. -/
def Ahead (log : List RwEvent) (w r : ℕ) : Prop :=
  ∃ l₁ l₂ l₃, log = l₁ ++ .waits w :: (l₂ ++ .begins r :: l₃) ∧ .granted w .write ∉ l₂ ++ l₃

/-- **The condition**: a reader that called while a writer waited, and still waits, does not
find `writer_locked` clear in its loop. -/
def Patient (r : RwLogged) (a : ℕ × RwAct) : Prop :=
  r.1.2 a.1 = .test .read → a.2 = .run → r.1.1.writerLocked = false → ∀ w, ¬ Ahead r.2 w a.1

lemma rwHistory_init : rwHistory.init ((rwlockInit, fun _ => .out), []) := ⟨rfl, rfl⟩

/-! ### The log -/

variable {log l l₂ : List RwEvent} {e x : RwEvent} {w t u : ℕ}

/-- Where the last event of a longer log is. -/
lemma append_singleton_eq (h : log ++ [e] = l ++ x :: l₂) :
    (l₂ = [] ∧ e = x ∧ log = l) ∨ ∃ l₃, l₂ = l₃ ++ [e] ∧ log = l ++ x :: l₃ := by
  induction l₂ using List.reverseRecOn with
  | nil =>
      obtain ⟨hlog, hx⟩ := List.append_inj' h rfl
      exact .inl ⟨rfl, List.singleton_inj.mp hx, hlog⟩
  | append_singleton l₃ y _ =>
      rw [← List.cons_append, ← List.append_assoc] at h
      obtain ⟨hlog, hy⟩ := List.append_inj' h rfl
      exact .inr ⟨l₃, by rw [List.singleton_inj.mp hy], hlog⟩

/-- An event other than a call of the reader puts no writer ahead of it. -/
lemma Ahead.of_append (h : Ahead (log ++ [e]) w t) (he : e ≠ .begins t) : Ahead log w t := by
  obtain ⟨l₁, l₂, l₃, hlog, hnot⟩ := h
  rw [← List.cons_append, ← List.append_assoc] at hlog
  rcases append_singleton_eq hlog with ⟨-, heq, -⟩ | ⟨l₄, rfl, hlog'⟩
  · exact absurd heq he
  · rw [List.append_assoc, List.cons_append] at hlog'
    refine ⟨l₁, l₂, l₄, hlog', fun hmem => hnot ?_⟩
    rw [← List.append_assoc]
    exact List.mem_append_left _ hmem

/-- A grant keeps the order if nobody is ahead of the reader. -/
lemma WriterFirst.append (h : WriterFirst log)
    (he : ∀ r, e = .granted r .read → ∀ w, ¬ Ahead log w r) : WriterFirst (log ++ [e]) := by
  intro w r l₁ l₂ l₃ l₄ hlog
  have hsplit : log ++ [e] =
      (l₁ ++ .waits w :: (l₂ ++ .begins r :: l₃)) ++ .granted r .read :: l₄ := by
    rw [hlog]
    simp
  rcases append_singleton_eq hsplit with ⟨-, heq, hlog'⟩ | ⟨l₅, -, hlog'⟩
  · by_contra hnot
    exact he r heq w ⟨l₁, l₂, l₃, hlog', hnot⟩
  · refine h w r l₁ l₂ l₃ l₅ ?_
    rw [hlog']
    simp

/-! ### Runs -/

variable {r r' : RwLogged} {a : ℕ × RwAct}

lemma rwNext_eq_some (h : rwNext r a = some r') : ∃ s p,
    rwStep r.1.1 a.1 (r.1.2 a.1) a.2 = some (s, p) ∧
      r' = ((s, Function.update r.1.2 a.1 p), r.2 ++ rwEvents r.1.1 a.1 (r.1.2 a.1) a.2) := by
  obtain ⟨c, hc, rfl⟩ := Option.map_eq_some_iff.mp h
  obtain ⟨⟨s, p⟩, hstep, rfl⟩ := Threads.next_eq_some hc
  exact ⟨s, p, hstep, rfl⟩

/-- A reader goes on to take the lock when it finds `writer_locked` clear. -/
lemma rwStep_take {s s' : RwLock} {p : RwPc} {x : RwAct}
    (h : rwStep s t p x = some (s', .take .read)) :
    p = .test .read ∧ x = .run ∧ s.writerLocked = false := by
  unfold rwStep at h
  split at h
  case h_6 type =>
    split_ifs at h with hwait
    · simp at h
    · obtain ⟨rfl, htype⟩ := Prod.mk.inj (Option.some.inj h)
      obtain rfl := RwPc.take.inj htype
      exact ⟨rfl, rfl, Bool.eq_false_of_not_eq_true hwait⟩
  all_goals
    first
    | (split_ifs at h <;> simp at h)
    | simp at h

/-- What a step logs: nothing, or one event, which is a grant only of a thread that takes the
lock. -/
lemma rwEvents_cases (s : RwLock) (t : ℕ) (p : RwPc) (x : RwAct) : rwEvents s t p x = [] ∨
    (rwEvents s t p x = [.begins t] ∧ p = .out) ∨ rwEvents s t p x = [.waits t] ∨
      ∃ type, rwEvents s t p x = [.granted t type] ∧ p = .take type := by
  unfold rwEvents
  split
  -- a reader calls
  case h_1 => exact .inr (.inl ⟨rfl, rfl⟩)
  -- a writer is at the test
  case h_2 =>
    split_ifs
    · exact .inr (.inr (.inl rfl))
    · exact .inl rfl
  -- a thread takes the lock
  case h_3 => exact .inr (.inr (.inr ⟨_, rfl, rfl⟩))
  case h_4 => exact .inl rfl

/-- Nobody is ahead of a reader that is about to take the lock. -/
def Fair (r : RwLogged) : Prop := ∀ t, r.1.2 t = .take .read → ∀ w, ¬ Ahead r.2 w t

/-- **A step that meets the condition** keeps the order. -/
lemma writerFirst_step (h : WriterFirst r.2) (hfair : Fair r) (hp : Patient r a)
    (hs : rwNext r a = some r') : WriterFirst r'.2 ∧ Fair r' := by
  obtain ⟨s, p, hstep, rfl⟩ := rwNext_eq_some hs
  have hevents := rwEvents_cases r.1.1 a.1 (r.1.2 a.1) a.2
  -- the other threads, and the thread itself if it goes on to take the lock
  have hkeep : ∀ u, Function.update r.1.2 a.1 p u = .take .read → ∀ w, ¬ Ahead r.2 w u := by
    intro u hu
    by_cases hua : u = a.1
    · subst hua
      rw [Function.update_self] at hu
      rw [hu] at hstep
      obtain ⟨hpc, hx, hclear⟩ := rwStep_take hstep
      exact hp hpc hx hclear
    · rw [Function.update_of_ne hua] at hu
      exact hfair u hu
  constructor
  · rcases hevents with he | ⟨he, -⟩ | he | ⟨type, he, hpc⟩
    · rw [he, List.append_nil]
      exact h
    · rw [he]
      exact h.append fun _ heq => by cases heq
    · rw [he]
      exact h.append fun _ heq => by cases heq
    · rw [he]
      refine h.append fun u heq => ?_
      obtain ⟨rfl, rfl⟩ := RwEvent.granted.inj heq
      exact hfair a.1 hpc
  · intro u hu w
    rcases hevents with he | ⟨he, hpc⟩ | he | ⟨type, he, -⟩
    · rw [he, List.append_nil]
      exact hkeep u hu w
    · rw [he]
      refine fun hahead => hkeep u hu w (hahead.of_append fun heq => ?_)
      -- the thread that calls does not take the lock
      obtain rfl := RwEvent.begins.inj heq
      change Function.update r.1.2 a.1 p a.1 = .take .read at hu
      rw [Function.update_self] at hu
      rw [hu] at hstep
      obtain ⟨htest, -⟩ := rwStep_take hstep
      rw [hpc] at htest
      cases htest
    · rw [he]
      exact fun hahead => hkeep u hu w (hahead.of_append fun heq => by cases heq)
    · rw [he]
      exact fun hahead => hkeep u hu w (hahead.of_append fun heq => by cases heq)

/-- **Writers come first** in every run in which no reader that called while a writer waited
finds `writer_locked` clear before that writer has got the lock. -/
theorem writerFirst_of_patient (h : rwHistory.Reach Patient r) : WriterFirst r.2 := by
  have hinv : WriterFirst r.2 ∧ Fair r := by
    refine Machine.Reach.inv (I := fun r => WriterFirst r.2 ∧ Fair r) ?_ ?_ h
    · rintro ⟨c, _⟩ ⟨rfl, rfl⟩
      refine ⟨fun w r l₁ l₂ l₃ l₄ hlog => ?_, fun t ht => by cases ht⟩
      simp at hlog
    · rintro s a s' ⟨hfirst, hfair⟩ hp hstep
      exact writerFirst_step hfirst hfair hp hstep
  exact hinv.1

/-- **The condition is sharp**: a reader that does not meet it gets the lock with its next two
steps, before the writer. -/
theorem not_writerFirst_of_impatient (h : ¬ Patient r (t, .run)) :
    ∃ r₁ r₂, rwNext r (t, .run) = some r₁ ∧ rwNext r₁ (t, .run) = some r₂ ∧
      ¬ WriterFirst r₂.2 := by
  obtain ⟨⟨s, pc⟩, log⟩ := r
  unfold Patient at h
  push Not at h
  obtain ⟨hpc, -, hclear, w, l₁, l₂, l₃, hlog, hnot⟩ := h
  change pc t = .test .read at hpc
  change s.writerLocked = false at hclear
  change log = _ at hlog
  have hmust : ¬ s.MustWait .read := by
    rw [RwLock.MustWait, hclear]
    exact Bool.false_ne_true
  refine ⟨((s, Function.update pc t (.take .read)), log),
    ((s.take .read, Function.update (Function.update pc t (.take .read)) t (.leave (some .read))),
      log ++ [.granted t .read]), ?_, ?_, fun hfirst => ?_⟩
  · simp [rwNext, Threads.next, rwThreads, rwStep, rwEvents, hpc, hmust]
  · simp [rwNext, Threads.next, rwThreads, rwStep, rwEvents]
  · refine hnot (hfirst w t l₁ l₂ l₃ [] ?_)
    rw [hlog]
    simp

/-! ### Runs of three threads -/

/-- Thread 0 reads, thread 1 waits to write, and thread 2 calls to read and gets the lock. -/
def overtakingRun : List (ℕ × RwAct) :=
  [(0, .lock .read), (0, .run), (0, .run), (0, .run), (0, .run), (0, .run),
    (1, .lock .write), (1, .run), (1, .run), (1, .run),
    (2, .lock .read), (2, .run), (2, .run), (2, .run), (2, .run), (2, .run)]

/-- The writer still waits when the reader that called after it gets the lock. -/
theorem not_writerFirst_overtakingRun :
    ¬ ∀ r, rwHistory.Reachable r → WriterFirst r.2 := by
  intro hall
  have hrun : (Machine.replay rwNext ((rwlockInit, fun _ => .out), []) overtakingRun).map
      Prod.snd = some [.begins 0, .granted 0 .read, .waits 1, .begins 2, .granted 2 .read] := by
    decide +kernel
  rw [Option.map_eq_some_iff] at hrun
  obtain ⟨r, hr, hlog⟩ := hrun
  have hreach : rwHistory.Reachable r :=
    Machine.reach_of_replay (fun _ _ _ h => h) overtakingRun (fun _ _ _ => trivial)
      (.init rwHistory_init) hr
  have hmem := hall r hreach 1 2 [.begins 0, .granted 0 .read] [] [] [] hlog
  simp at hmem

/-- Thread 1 writes, thread 2 waits to write, and thread 3 calls to read and waits. -/
def patientRun : List (ℕ × RwAct) :=
  [(1, .lock .write), (1, .run), (1, .run), (1, .run), (1, .run), (1, .run),
    (2, .lock .write), (2, .run), (2, .run), (2, .run),
    (3, .lock .read), (3, .run), (3, .run), (3, .run),
    (1, .unlock), (1, .run), (1, .run), (1, .run), (1, .run), (1, .run),
    (2, .run), (2, .run), (2, .run), (2, .run), (3, .run), (3, .run)]

/-- No reader finds `writer_locked` clear. -/
def Locked (r : RwLogged) (a : ℕ × RwAct) : Prop :=
  ¬ (r.1.2 a.1 = .test .read ∧ r.1.1.writerLocked = false)

instance (r : RwLogged) (a : ℕ × RwAct) : Decidable (Locked r a) :=
  inferInstanceAs (Decidable (¬ _))

/-- Thread 2 gets the lock, and the reader waits again. -/
theorem writerFirst_of_patient_patientRun :
    ∃ r, Machine.replay (Machine.guarded Locked rwNext) ((rwlockInit, fun _ => .out), [])
        patientRun = some r ∧
      r.2 = [.granted 1 .write, .waits 2, .begins 3, .granted 2 .write] ∧ WriterFirst r.2 := by
  have hrun : (Machine.replay (Machine.guarded Locked rwNext) ((rwlockInit, fun _ => .out), [])
      patientRun).map Prod.snd =
        some [.granted 1 .write, .waits 2, .begins 3, .granted 2 .write] := by
    decide +kernel
  rw [Option.map_eq_some_iff] at hrun
  obtain ⟨r, hr, hlog⟩ := hrun
  refine ⟨r, hr, hlog, writerFirst_of_patient (r := r) ?_⟩
  have hreach : rwHistory.Reach Locked r :=
    Machine.reach_of_guarded (fun _ _ _ h => h) patientRun (.init rwHistory_init) hr
  exact hreach.mono fun s a hlocked hpc _ hclear => absurd ⟨hpc, hclear⟩ hlocked

end ShrekOS
