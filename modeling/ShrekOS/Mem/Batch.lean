/-
Batches of mappings that are aborted.

* `MapCall`, `abortedBatch`: any calls of `pd_create_mapping` and
  `pd_remove_mapping` between `pd_begin_mapping` and `pd_abort_mapping`;
* `AllOrNothing`: the directory and its page tables are as before, and none of
  them was freed;
* `perform_cases`: a call leaves the directory alone, or gets a page table for a
  slot that was not present;
* `abortedBatch_allOrNothing_iff`: **the abort undoes the batch exactly when no
  call of it got a page table**.
-/
import ShrekOS.Mem.VmRules

namespace ShrekOS

open Kit Kit.Cmd Vm

/-- A call that adds to a batch. -/
inductive MapCall where
  | create (vAddr pAddr pteFlags pdeFlags : UInt32)
  | remove (vAddr : UInt32)

namespace MapCall

/-- A call, whatever it returns. -/
def perform (d : ℕ) : MapCall → VmM Unit
  | create vAddr pAddr pteFlags pdeFlags => do
      let _ ← pdCreateMapping d vAddr.toNat pAddr.toNat pteFlags.toNat pdeFlags.toNat
  | remove vAddr => do let _ ← pdRemoveMapping d vAddr.toNat

/-- The call gets a page table in the state `s`: its addresses are aligned, the
slot is not present, and `memalign` succeeds. -/
def GetsTable (d : ℕ) (s : Vm) : MapCall → Prop
  | create vAddr pAddr _ _ =>
      isPageAligned vAddr.toNat = true ∧ isPageAligned pAddr.toNat = true ∧
        entryPresent ((s.pds d).directory (pdeIndex vAddr.toNat)) = false ∧
        ∃ a rs, s.heap = some a :: rs
  | remove _ => False

/-- The directory flags of a call, if it has any, have the present bit. -/
def PresentFlag : MapCall → Prop
  | create _ _ _ pdeFlags => entryPresent pdeFlags.toNat = true
  | remove _ => True

end MapCall

/-- The calls of a batch, one after the other. -/
def performCalls (d : ℕ) : List MapCall → VmM Unit
  | [] => pure ()
  | c :: cs => do c.perform d; performCalls d cs

/-- A batch that is aborted. -/
def abortedBatch (d : ℕ) (calls : List MapCall) : VmM Unit := do
  let _ ← pdBeginMapping d
  performCalls d calls
  pdAbortMapping d

/-- No call of the batch gets a page table in the state it is made in. -/
def NoNewTable (d : ℕ) : List MapCall → Vm → Prop
  | [], _ => True
  | c :: cs, s => ¬ c.GetsTable d s ∧ NoNewTable d cs (c.perform d s).2

/-- The page tables of a directory are in use. -/
def TablesLive (d : ℕ) (s : Vm) : Prop :=
  ∀ i < numEntries, entryPresent ((s.pds d).directory i) = true →
    s.live (removeFlags ((s.pds d).directory i)) = true

/-- The directory and its page tables are as before, and none of them was freed. -/
structure AllOrNothing (d : ℕ) (s s' : Vm) : Prop where
  directory : ∀ i < numEntries, (s'.pds d).directory i = (s.pds d).directory i
  tables : ∀ i < numEntries, entryPresent ((s.pds d).directory i) = true → ∀ j < numEntries,
    s'.pt (removeFlags ((s.pds d).directory i)) j = s.pt (removeFlags ((s.pds d).directory i)) j
  live : TablesLive d s'

/-! ### One call -/

/-- What a call does that gets no page table: it uses the heap and may add a task
without a table. -/
structure Quiet (d : ℕ) (s s' : Vm) : Prop where
  pt : s'.pt = s.pt
  live : s'.live = s.live
  directory : (s'.pds d).directory = (s.pds d).directory
  batch : (s'.pds d).batchEnabled = (s.pds d).batchEnabled
  tasks : (∀ t ∈ (s.pds d).mappingTasks, t.resource = none) →
    ∀ t ∈ (s'.pds d).mappingTasks, t.resource = none

variable {d : ℕ} {s s' : Vm}

lemma Quiet.refl (d : ℕ) (s : Vm) : Quiet d s s := ⟨rfl, rfl, rfl, rfl, id⟩

/-- Using the heap alone. -/
lemma Quiet.heap (d : ℕ) (s : Vm) (heap : List (Option ℕ)) : Quiet d s { s with heap := heap } :=
  ⟨rfl, rfl, rfl, rfl, id⟩

/-- Adding a task without a page table. -/
lemma Quiet.addTask (hb : (s.pds d).batchEnabled = true) (v pte : ℕ) (heap : List (Option ℕ)) :
    Quiet d s { s with
      heap := heap
      pds := Function.update s.pds d ((s.pds d).addTask ⟨v, pte, none⟩) } := by
  refine ⟨rfl, rfl, by simp, by simp, ?_⟩
  intro h t ht
  simp only [Function.update_self, PageDirectory.addTask_mappingTasks hb] at ht
  rcases List.mem_append.mp ht with ht | ht
  · exact h t ht
  · rw [List.mem_singleton.mp ht]

/-- The end of a call in a batch, with or without a new page table. -/
lemma recordMapping_batch (hb : (s.pds d).batchEnabled = true) (v t pte : ℕ) (r : Option ℕ) :
    wp (recordMapping d v t pte r) (fun _ s' => (r = none → Quiet d s s') ∧
      (s'.pds d).directory = (s.pds d).directory ∧
      (s'.pds d).batchEnabled = (s.pds d).batchEnabled) (fun _ _ => True) s := by
  simp only [recordMapping, wp_bind, wp_gets, hb, if_true, wp_malloc]
  rcases s.heap with _ | ⟨r₁, rs₁⟩
  · trivial
  · dsimp only
    rw [wp_ite]
    refine ⟨fun _ => ⟨fun _ => .heap d s rs₁, rfl, hb⟩, fun _ => ?_⟩
    rw [wp_bind, wp_malloc]
    dsimp only
    rcases rs₁ with _ | ⟨r₂, rs₂⟩
    · trivial
    · dsimp only
      rw [wp_ite]
      constructor
      · intro _
        rw [wp_bind, wp_free]
        cases r with
        | none => exact ⟨fun _ => .heap d s rs₂, rfl, hb⟩
        | some a => exact ⟨by simp, rfl, hb⟩
      · intro _
        simp only [wp_bind, wp_gets, wp_setPd, wp_pure]
        refine ⟨?_, by simp, by simpa using hb⟩
        rintro rfl
        exact .addTask hb v pte rs₂

/-- What a call does that gets the page table at `a`: its slot points there. -/
def GotTable (d : ℕ) (s s' : Vm) (i a flags : ℕ) : Prop :=
  a % pageSize = 0 ∧ (s'.pds d).batchEnabled = (s.pds d).batchEnabled ∧
    (s'.pds d).directory = Function.update (s.pds d).directory i (addFlags a flags)

/-- What a call in a batch does. -/
def CallCases (d : ℕ) (s s' : Vm) (c : MapCall) : Prop :=
  (¬ c.GetsTable d s ∧ Quiet d s s') ∨
    ∃ i a flags, c.GetsTable d s ∧ entryPresent ((s.pds d).directory i) = false ∧ i < numEntries ∧
      GotTable d s s' i a flags ∧ (c.PresentFlag → entryPresent flags = true)

/-- `pd_create_mapping` in a batch. -/
lemma pdCreateMapping_cases (hb : (s.pds d).batchEnabled = true) (v p f g : UInt32) :
    wp (pdCreateMapping d v.toNat p.toNat f.toNat g.toNat)
      (fun _ s' => CallCases d s s' (.create v p f g)) (fun _ _ => True) s := by
  rw [pdCreateMapping, wp_ite]
  constructor
  · intro h
    refine .inl ⟨fun hg => ?_, .refl d s⟩
    rcases h with h | h
    · exact h hg.1
    · exact h hg.2.1
  · intro h
    rw [not_or, not_not, not_not] at h
    rw [wp_bind, createTable, wp_bind, wp_entry, wp_ite]
    constructor
    · -- the slot is present: no table is needed
      intro hpre
      have hnot : ¬ (MapCall.create v p f g).GetsTable d s := fun hg => by
        rw [hg.2.2.1] at hpre
        simp at hpre
      rw [wp_pure]
      exact wp_imp (recordMapping_batch hb _ _ _ none) fun _ s' hs' => .inl ⟨hnot, hs'.1 rfl⟩
    · intro hpre
      rw [Bool.not_eq_true] at hpre
      rw [wp_bind, wp_memalign]
      rcases hheap : s.heap with _ | ⟨_ | a, rs⟩
      · trivial
      · exact .inl ⟨fun ⟨_, _, _, a, rs', ha⟩ => by simp [hheap] at ha, .heap d s rs⟩
      · dsimp only
        split_ifs with hok
        · -- a table was got: its address goes into the slot
          simp only [wp_bind, wp_clearTable, wp_setEntry, wp_pure]
          refine wp_imp (recordMapping_batch (by simpa using hb) _ _ _ (some a)) fun _ s' hs' => ?_
          refine .inr ⟨_, a, g.toNat, ⟨h.1, h.2, hpre, a, rs, hheap⟩, hpre, pdeIndex_lt _,
            ⟨hok.1, by simpa using hs'.2.2, by simpa using hs'.2.1⟩, id⟩

/-- `pd_remove_mapping` in a batch gets no page table. -/
lemma pdRemoveMapping_quiet (hb : (s.pds d).batchEnabled = true) (v : ℕ) :
    wp (pdRemoveMapping d v) (fun _ s' => Quiet d s s') (fun _ _ => True) s := by
  rw [pdRemoveMapping, wp_ite]
  refine ⟨fun _ => .refl d s, fun _ => ?_⟩
  rw [wp_bind, wp_entry, wp_ite]
  refine ⟨fun _ => .refl d s, fun _ => ?_⟩
  rw [wp_bind, wp_pte, wp_ite]
  refine ⟨fun _ => .refl d s, fun _ => ?_⟩
  exact wp_imp (recordMapping_batch hb _ _ _ none) fun _ s' hs' => hs'.1 rfl

/-- **What one call of a batch does.** -/
theorem perform_cases (hb : (s.pds d).batchEnabled = true) (c : MapCall) :
    wp (c.perform d) (fun _ s' => CallCases d s s' c) (fun _ _ => True) s := by
  cases c with
  | create v p f g =>
      rw [MapCall.perform, wp_bind]
      exact pdCreateMapping_cases hb v p f g
  | remove v =>
      rw [MapCall.perform, wp_bind]
      exact wp_imp (pdRemoveMapping_quiet hb v.toNat) fun _ s' hs' => .inl ⟨id, hs'⟩

/-! ### The whole batch -/

lemma Quiet.trans {s₁ s₂ : Vm} (h₁ : Quiet d s s₁) (h₂ : Quiet d s₁ s₂) : Quiet d s s₂ :=
  ⟨h₂.pt.trans h₁.pt, h₂.live.trans h₁.live, h₂.directory.trans h₁.directory,
    h₂.batch.trans h₁.batch, fun h => h₂.tasks (h₁.tasks h)⟩

/-- Calls that get no page table. -/
lemma performCalls_quiet : ∀ (cs : List MapCall) {s : Vm}, (s.pds d).batchEnabled = true →
    NoNewTable d cs s →
    wp (performCalls d cs) (fun _ s' => Quiet d s s') (fun _ _ => True) s := by
  intro cs
  induction cs with
  | nil => exact fun {s} _ _ => .refl d s
  | cons c cs ih =>
      intro s hb ⟨hno, hrest⟩
      rw [performCalls, wp_bind]
      refine wp_imp (wp_and (perform_cases hb c) (wp_snd (c.perform d) s)) fun _ s₁ ⟨h₁, he⟩ => ?_
      rcases h₁ with ⟨-, hq⟩ | ⟨_, _, _, hg, -⟩
      · exact wp_imp (ih (hq.batch.trans hb) (he ▸ hrest)) fun _ s₂ h₂ => hq.trans h₂
      · exact absurd hg hno

/-- A present slot stays as it is. -/
lemma performCalls_present {i : ℕ} : ∀ (cs : List MapCall) {s : Vm},
    (s.pds d).batchEnabled = true → entryPresent ((s.pds d).directory i) = true →
    wp (performCalls d cs)
      (fun _ s' => (s'.pds d).directory i = (s.pds d).directory i) (fun _ _ => True) s := by
  intro cs
  induction cs with
  | nil => exact fun _ _ => rfl
  | cons c cs ih =>
      intro s hb hi
      rw [performCalls, wp_bind]
      refine wp_imp (perform_cases hb c) fun _ s₁ h₁ => ?_
      have hkeep : (s₁.pds d).batchEnabled = true ∧
          (s₁.pds d).directory i = (s.pds d).directory i := by
        rcases h₁ with ⟨-, hq⟩ | ⟨k, a, flags, -, hk, -, ⟨-, hb', hdir⟩, -⟩
        · exact ⟨hq.batch.trans hb, by rw [hq.directory]⟩
        · have hik : i ≠ k := by
            rintro rfl
            simp [hk] at hi
          exact ⟨hb'.trans hb, by rw [hdir, Function.update_of_ne hik]⟩
      exact wp_imp (ih hkeep.1 (hkeep.2 ▸ hi)) fun _ s₂ h₂ => h₂.trans hkeep.2

/-- Calls whose directory flags have the present bit, and that leave the directory
as it was, got no page table. -/
lemma performCalls_noNewTable : ∀ (cs : List MapCall) {s : Vm},
    (s.pds d).batchEnabled = true → (∀ c ∈ cs, c.PresentFlag) →
    wp (performCalls d cs) (fun _ s' =>
      (∀ i < numEntries, (s'.pds d).directory i = (s.pds d).directory i) → NoNewTable d cs s)
      (fun _ _ => True) s := by
  intro cs
  induction cs with
  | nil => exact fun _ _ _ => trivial
  | cons c cs ih =>
      intro s hb hpf
      rw [performCalls, wp_bind]
      refine wp_imp (wp_and (perform_cases hb c) (wp_snd (c.perform d) s)) fun _ s₁ ⟨h₁, he⟩ => ?_
      rcases h₁ with ⟨hno, hq⟩ | ⟨k, a, flags, -, hk, hkn, ⟨ha, hb', hdir⟩, hfl⟩
      · refine wp_imp (ih (hq.batch.trans hb) fun c' hc' => hpf c' (.tail c hc'))
          fun _ s₂ h₂ hs => ?_
        exact ⟨hno, he ▸ h₂ fun i hi => by rw [hs i hi, hq.directory]⟩
      · -- the slot that got a table is present from now on, and was not before
        have hpre : entryPresent ((s₁.pds d).directory k) = true := by
          rw [hdir, Function.update_self, entryPresent_addFlags ha]
          exact hfl (hpf c (.head cs))
        refine wp_imp (performCalls_present cs (hb'.trans hb) hpre) fun _ s₂ h₂ hs => ?_
        rw [← h₂, hs k hkn, hk] at hpre
        simp at hpre

/-- The loop of the abort frees page tables only. -/
lemma freeResources_spec : ∀ (tasks : List MappingTask) (s : Vm),
    wp (freeResources tasks) (fun _ s' => s'.pds = s.pds ∧ s'.pt = s.pt ∧
      ((∀ t ∈ tasks, t.resource = none) → s'.live = s.live)) (fun _ _ => True) s := by
  intro tasks
  induction tasks with
  | nil => exact fun s => ⟨rfl, rfl, fun _ => rfl⟩
  | cons t tasks ih =>
      intro s
      rw [freeResources, wp_bind, wp_free]
      cases hr : t.resource with
      | none =>
          refine wp_imp (ih s) fun _ s' ⟨h1, h2, h3⟩ => ⟨h1, h2, fun hall => ?_⟩
          exact h3 fun t' ht' => hall t' (.tail t ht')
      | some a =>
          refine wp_imp (ih _) fun _ s' ⟨h1, h2, _⟩ => ⟨h1, h2, fun hall => ?_⟩
          simp [hall t (.head tasks)] at hr

/-- `pd_abort_mapping` leaves the directory and the page tables alone, and frees
nothing when no task has a page table. -/
lemma pdAbortMapping_spec (d : ℕ) (s : Vm) :
    wp (pdAbortMapping d) (fun _ s' => (s'.pds d).directory = (s.pds d).directory ∧
      s'.pt = s.pt ∧ ((∀ t ∈ (s.pds d).mappingTasks, t.resource = none) → s'.live = s.live))
      (fun _ _ => True) s := by
  rw [pdAbortMapping, wp_bind, wp_gets, wp_bind]
  refine wp_imp (freeResources_spec _ s) fun _ s' ⟨h1, h2, h3⟩ => ?_
  simp only [wp_bind, wp_gets, wp_setPd, Function.update_self]
  exact ⟨by rw [h1], h2, h3⟩

/-- **An aborted batch is undone when the page tables were in use and none of its calls gets a
page table, and, when the directory flags of its calls have the present bit, only then.** -/
theorem abortedBatch_allOrNothing_iff (hb : (s.pds d).batchEnabled = false)
    (calls : List MapCall) (hrun : abortedBatch d calls s = (.ok (), s')) :
    (TablesLive d s ∧ NoNewTable d calls (pdBeginMapping d s).2 → AllOrNothing d s s') ∧
      ((∀ c ∈ calls, c.PresentFlag) → (AllOrNothing d s s' ↔
        TablesLive d s ∧ NoNewTable d calls (pdBeginMapping d s).2)) := by
  -- the state in which the calls start
  have hs₁ : wp (pdBeginMapping d) (fun _ s₁ => (pdBeginMapping d s).2 = s₁ ∧ s₁.pt = s.pt ∧
      s₁.live = s.live ∧ (s₁.pds d).directory = (s.pds d).directory ∧
      (s₁.pds d).batchEnabled = true ∧ (s₁.pds d).mappingTasks = []) (fun _ _ => True) s := by
    have hw := wp_snd (pdBeginMapping d) s
    rw [pdBeginMapping, wp_bind, wp_gets, wp_ite] at hw ⊢
    refine ⟨fun h => absurd h (by simp [hb]), fun h => ?_⟩
    have hw' := hw.2 h
    rw [wp_bind, wp_setPd, wp_pure] at hw' ⊢
    refine ⟨hw', rfl, rfl, ?_, ?_, ?_⟩
    · simp
    · simp
    · simpa using (s.pds d).idle hb
  have hquiet : NoNewTable d calls (pdBeginMapping d s).2 →
      (s'.pds d).directory = (s.pds d).directory ∧ s'.pt = s.pt ∧ s'.live = s.live := by
    intro hno
    have hwp : wp (abortedBatch d calls) (fun _ s' => (s'.pds d).directory = (s.pds d).directory ∧
        s'.pt = s.pt ∧ s'.live = s.live) (fun _ _ => True) s := by
      rw [abortedBatch, wp_bind]
      refine wp_imp hs₁ fun _ s₁ hpost => ?_
      obtain ⟨he, hpt, hlive, hdir, hb₁, ht₁⟩ := hpost
      rw [wp_bind]
      refine wp_imp (performCalls_quiet calls hb₁ (he ▸ hno)) fun _ s₂ hq => ?_
      refine wp_imp (pdAbortMapping_spec d s₂) fun _ s₃ hpost => ?_
      obtain ⟨h1, h2, h3⟩ := hpost
      refine ⟨h1.trans (hq.directory.trans hdir), h2.trans (hq.pt.trans hpt), ?_⟩
      exact (h3 (hq.tasks (by simp [ht₁]))).trans (hq.live.trans hlive)
    exact wp_ok (Q := fun _ s' => (s'.pds d).directory = (s.pds d).directory ∧ s'.pt = s.pt ∧
      s'.live = s.live) hwp hrun
  have hsuff : TablesLive d s ∧ NoNewTable d calls (pdBeginMapping d s).2 →
      AllOrNothing d s s' := by
    rintro ⟨htab, hno⟩
    obtain ⟨hdir, hpt, hlive⟩ := hquiet hno
    refine ⟨fun i _ => by rw [hdir], fun i _ _ j _ => by rw [hpt], fun i hi hpre => ?_⟩
    rw [hdir] at hpre ⊢
    rw [hlive]
    exact htab i hi hpre
  refine ⟨hsuff, fun hpf => ⟨fun hall => ?_, hsuff⟩⟩
  have hwp : wp (abortedBatch d calls) (fun _ s' =>
      (∀ i < numEntries, (s'.pds d).directory i = (s.pds d).directory i) →
        NoNewTable d calls (pdBeginMapping d s).2) (fun _ _ => True) s := by
    rw [abortedBatch, wp_bind]
    refine wp_imp hs₁ fun _ s₁ hpost => ?_
    obtain ⟨he, _, _, hdir, hb₁, _⟩ := hpost
    rw [wp_bind]
    refine wp_imp (performCalls_noNewTable calls hb₁ hpf) fun _ s₂ h₂ => ?_
    refine wp_imp (pdAbortMapping_spec d s₂) fun _ s₃ hpost hs => ?_
    obtain ⟨h1, _, _⟩ := hpost
    exact he ▸ h₂ fun i hi => by rw [← h1, hs i hi, hdir]
  have hno := wp_ok hwp hrun hall.directory
  -- without a new page table the same memory is in use as before
  obtain ⟨hdir, -, hlive⟩ := hquiet hno
  refine ⟨fun i hi hpre => ?_, hno⟩
  have htab := hall.live i hi
  rw [hdir, hlive] at htab
  exact htab hpre

/-! ### A batch that is not undone -/

/-- An empty user space, with the given answers of the heap. -/
def emptyVm (fm : FrameManager) (heap : List (Option ℕ)) : Vm where
  pds := fun _ => ⟨fun _ => 0, 0, [], [], false, idle_nil⟩
  pt := fun _ _ => 0
  live := fun _ => false
  fm := fm
  heap := heap

/-- One new mapping of the page at the start of user memory. -/
def oneMapping : List MapCall := [.create 0x1000000 0x1000000 7 7]

/-- The heap gives a page table, a task and a list node. -/
def oneMappingHeap : List (Option ℕ) := [some 0x5000, some 0x8000, some 0x8010]

/-- **The slot of an aborted mapping still points to its page table, which is
freed.** -/
theorem abortedBatch_not_allOrNothing :
    let s := emptyVm (fmEmpty 1) oneMappingHeap
    let s' := (abortedBatch 0 oneMapping s).2
    TablesLive 0 s ∧ (s.pds 0).batchEnabled = false ∧
      abortedBatch 0 oneMapping s = (.ok (), s') ∧ ¬ AllOrNothing 0 s s' ∧
      (s'.pds 0).directory 4 = 0x5007 ∧ s'.live 0x5000 = false := by
  refine ⟨by simp [TablesLive, emptyVm], rfl, rfl, fun h => ?_, by decide, by decide⟩
  exact absurd (h.directory 4 (by decide)) (by decide)

/-- A directory whose first user slot has a page table, with one page mapped; the heap answers
the tasks of two calls. -/
def tableVm : Vm where
  pds := fun _ => ⟨fun i => if i = 4 then 0x5007 else 0, 0, [], [], false, idle_nil⟩
  pt := fun t j => if t = 0x5000 ∧ j = 0 then 0x1000007 else 0
  live := fun a => decide (a = 0x5000)
  fm := fmEmpty 1
  heap := [some 0x8000, some 0x8010, some 0x8020, some 0x8030]

/-- A new mapping, one that is taken back, and one that is refused. -/
def undoneCalls : List MapCall :=
  [.create 0x1001000 0x1001000 7 7, .remove 0x1000000, .create 0x1000001 0x1000000 7 7]

/-- **A batch that is undone**: two tasks are queued for a page table that is in use. -/
theorem abortedBatch_allOrNothing_iff_undoneCalls :
    ((performCalls 0 undoneCalls (pdBeginMapping 0 tableVm).2).2.pds 0).mappingTasks.length = 2 ∧
      ((performCalls 0 undoneCalls (pdBeginMapping 0 tableVm).2).2.pds 0).directory 4 = 0x5007 ∧
      AllOrNothing 0 tableVm (abortedBatch 0 undoneCalls tableVm).2 := by
  refine ⟨by decide, by decide, (abortedBatch_allOrNothing_iff rfl undoneCalls rfl).1 ⟨?_, ?_⟩⟩
  · intro i _ hpre
    have hslot : i = 4 := by
      by_contra hne
      have hzero : (tableVm.pds 0).directory i = 0 := if_neg hne
      rw [hzero] at hpre
      exact absurd hpre (by decide)
    rw [hslot]
    decide
  · refine ⟨?_, id, fun h => absurd h.1 (by decide), trivial⟩
    rintro ⟨-, -, hpre, -⟩
    exact absurd hpre (by decide)

end ShrekOS
