/-
One call of `pd_create_mapping` or `pd_remove_mapping`, in any state of the virtual memory.

* `Vm.word`: the word of a page in its page table, present or not; `pdGetMapping_word`: what
  `pd_get_mapping` returns is decided by it;
* `MakesTable`: what the first part of `pd_create_mapping` does, `createTable_spec`;
* `pdCreateMapping_now`, `pdRemoveMapping_now`: **a call at once** writes one word;
* `pdCreateMapping_queued`, `pdRemoveMapping_queued`: **a call in a batch** adds a task.

No invariant is used: page tables may be shared, and they need not be in use.
-/
import ShrekOS.Mem.UserMap

namespace ShrekOS

open Kit Kit.Cmd Vm

variable {d : ℕ} {s s' s₁ : Vm}

/-! ### Words -/

/-- The directory and the page tables. -/
def Vm.tables (s : Vm) (d : ℕ) : (ℕ → ℕ) × (ℕ → ℕ → ℕ) := (s.dirs d, s.pt)

/-- The page table that the slot `i` leads to. -/
def Vm.table (s : Vm) (d i : ℕ) : ℕ := removeFlags (s.dirs d i)

/-- The word of the page `w`, if its slot is present. -/
def Vm.word (s : Vm) (d w : ℕ) : Option ℕ :=
  if entryPresent (s.dirs d (w / numEntries)) = true then
    some (s.pt (s.table d (w / numEntries)) (w % numEntries))
  else none

lemma Vm.word_of_present {w : ℕ} (h : entryPresent (s.dirs d (w / numEntries)) = true) :
    s.word d w = some (s.pt (s.table d (w / numEntries)) (w % numEntries)) := if_pos h

lemma Vm.word_of_absent {w : ℕ} (h : entryPresent (s.dirs d (w / numEntries)) = false) :
    s.word d w = none := if_neg (by simp [h])

/-- A page is mapped when its word is present. -/
lemma Vm.pageEntry_eq_word (s : Vm) (d w : ℕ) :
    s.pageEntry d w = (s.word d w).filter entryPresent := by
  rw [Vm.pageEntry, ShrekOS.pageEntry, Vm.word, Vm.table]
  by_cases h : entryPresent (s.dirs d (w / numEntries)) = true
  · simp [h, Option.filter]
  · simp [h]

lemma Vm.pageEntry_of_word {w x : ℕ} (h : s.word d w = some x) (hx : entryPresent x = true) :
    s.pageEntry d w = some x := by
  rw [Vm.pageEntry_eq_word, h]
  simp [Option.filter, hx]

/-- What `pd_get_mapping` returns for a word. -/
def wordAnswer : Option ℕ → Except ℤ ℕ
  | none => .error (-2)
  | some v => if entryPresent v then .ok v else .error (-3)

/-- **`pd_get_mapping`** returns what the word of the page says. -/
lemma pdGetMapping_word {v : ℕ} (hv : v < 2 ^ 32) :
    pdGetMapping d v s = (.ok (wordAnswer (s.word d (v / pageSize))), s) := by
  have h : wp (pdGetMapping d v)
      (fun r s' => r = wordAnswer (s.word d (v / pageSize)) ∧ s' = s) (fun _ _ => False) s := by
    rw [pdGetMapping, wp_bind, wp_entry, wp_ite, pdeIndex_eq hv]
    refine ⟨fun habs => ⟨?_, rfl⟩, fun hpre => ?_⟩
    · rw [Bool.not_eq_true] at habs
      rw [Vm.word_of_absent habs]
      rfl
    · rw [not_not] at hpre
      rw [Vm.word_of_present hpre, wp_bind, wp_pte, pteIndex_eq, wp_ite]
      refine ⟨fun hno => ⟨(if_neg hno).symm, rfl⟩, fun hyes => ⟨?_, rfl⟩⟩
      rw [not_not] at hyes
      exact (if_pos hyes).symm
  obtain ⟨r, s', hrun, rfl, rfl⟩ := wp_returns h
  exact hrun

/-! ### The first part of `pd_create_mapping` -/

/-- The page table for the slot `i`: the one that is there, or a new one at an address that
is not in use. -/
inductive MakesTable (d i flags : ℕ) (s : Vm) : Vm → Option ℕ → Prop where
  | old : entryPresent (s.dirs d i) = true → MakesTable d i flags s s none
  | new {a : ℕ} {heap : List (Option ℕ)} : entryPresent (s.dirs d i) = false →
      a % pageSize = 0 → s.live a = false → s.heap = some a :: heap →
      MakesTable d i flags s
        { s with
          heap := heap
          live := Function.update s.live a true
          pt := Function.update s.pt a fun _ => 0
          pds := Function.update s.pds d { s.pds d with
            directory := Function.update (s.pds d).directory i (addFlags a flags) } }
        (some a)

lemma createTable_spec (d i flags : ℕ) (s : Vm) :
    wp (createTable d i flags) (fun r s₁ => match r with
      | none => s₁.tables d = s.tables d
      | some (pde, resource) => MakesTable d i flags s s₁ resource ∧ pde = s₁.dirs d i)
      (fun _ _ => True) s := by
  rw [createTable, wp_bind, wp_entry, wp_ite]
  refine ⟨fun hpre => ⟨.old hpre, rfl⟩, fun habs => ?_⟩
  rw [wp_bind, wp_memalign]
  rcases hheap : s.heap with _ | ⟨_ | a, rs⟩
  · trivial
  · rfl
  · dsimp only
    split_ifs with hok
    rw [wp_bind, wp_clearTable, wp_bind, wp_setEntry, wp_pure]
    rw [Bool.not_eq_true] at habs
    refine ⟨.new habs hok.1 hok.2.2.2 hheap, ?_⟩
    simp [Vm.dirs]

namespace MakesTable

variable {i flags : ℕ} {r : Option ℕ}

/-- Only the directory `d` changes, and of it only the entry. -/
lemma batch (h : MakesTable d i flags s s₁ r) :
    (s₁.pds d).batchEnabled = (s.pds d).batchEnabled ∧
      (s₁.pds d).mappingTasks = (s.pds d).mappingTasks := by
  cases h with
  | old _ => exact ⟨rfl, rfl⟩
  | new _ _ _ _ => exact ⟨by simp, by simp⟩

/-- A slot that is present stays as it is. -/
lemma dirs_of_present (h : MakesTable d i flags s s₁ r) {j : ℕ}
    (hj : entryPresent (s.dirs d j) = true) : s₁.dirs d j = s.dirs d j := by
  cases h with
  | old _ => rfl
  | new habs _ _ _ =>
      have hne : j ≠ i := by
        rintro rfl
        simp [hj] at habs
      simp [Vm.dirs, Function.update_of_ne hne]

/-- The other slots stay as they are. -/
lemma dirs_of_ne (h : MakesTable d i flags s s₁ r) {j : ℕ} (hne : j ≠ i) :
    s₁.dirs d j = s.dirs d j := by
  cases h with
  | old _ => rfl
  | new _ _ _ _ => simp [Vm.dirs, Function.update_of_ne hne]

/-- A slot that was not present leads to a new page table. -/
lemma dirs_of_absent (h : MakesTable d i flags s s₁ r)
    (habs : entryPresent (s.dirs d i) = false) :
    ∃ a, a % pageSize = 0 ∧ s.live a = false ∧ s₁.dirs d i = addFlags a flags := by
  cases h with
  | old hpre => simp [hpre] at habs
  | new _ ha hlive _ => exact ⟨_, ha, hlive, by simp [Vm.dirs]⟩

end MakesTable

/-! ### The last part -/

lemma recordMapping_now (hb : (s.pds d).batchEnabled = false) (v t x : ℕ) (r : Option ℕ) :
    wp (recordMapping d v t x r) (fun c s' => c = 0 ∧ s' = { s with
      pt := Function.update s.pt t (Function.update (s.pt t) (pteIndex v) x) })
      (fun _ _ => False) s := by
  rw [recordMapping, wp_bind, wp_gets, wp_ite]
  refine ⟨fun hon => absurd hon (by simp [hb]), fun _ => ?_⟩
  rw [wp_bind, wp_setPte, wp_pure]
  exact ⟨rfl, rfl⟩

/-- In a batch a task is added, or the tables stay as they are. -/
lemma recordMapping_queued (hb : (s.pds d).batchEnabled = true) (v t x : ℕ) (r : Option ℕ) :
    wp (recordMapping d v t x r) (fun c s' => s'.tables d = s.tables d ∧
      (s'.pds d).batchEnabled = true ∧ (c < 0 ∨ c = 0 ∧ ∃ heap ⊆ s.heap, s' = { s with
        heap := heap
        pds := Function.update s.pds d ((s.pds d).addTask ⟨v, x, r⟩) })) (fun _ _ => True) s := by
  simp only [recordMapping, wp_bind, wp_gets, hb, if_true, wp_malloc]
  rcases hheap : s.heap with _ | ⟨r₁, rs₁⟩
  · trivial
  dsimp only
  rw [wp_ite]
  refine ⟨fun _ => ⟨rfl, hb, .inl (by decide)⟩, fun _ => ?_⟩
  rw [wp_bind, wp_malloc]
  rcases rs₁ with _ | ⟨r₂, rs₂⟩
  · trivial
  dsimp only
  rw [wp_ite]
  constructor
  · intro _
    rw [wp_bind, wp_free]
    cases r with
    | none => exact ⟨rfl, hb, .inl (by decide)⟩
    | some a => exact ⟨rfl, hb, .inl (by decide)⟩
  · intro _
    rw [wp_bind, wp_gets, wp_bind, wp_setPd, wp_pure]
    refine ⟨?_, by simpa using hb, .inr ⟨rfl, rs₂, fun _ hr => .tail _ (.tail _ hr), rfl⟩⟩
    exact Prod.ext (by funext j; simp [Vm.tables, Vm.dirs]) rfl

/-! ### The two calls -/

/-- **`pd_create_mapping` at once.** -/
lemma pdCreateMapping_now (hb : (s.pds d).batchEnabled = false) {v p f g : ℕ} :
    wp (pdCreateMapping d v p f g) (fun c s' => c < 0 ∨ c = 0 ∧ v % pageSize = 0 ∧
      p % pageSize = 0 ∧ ∃ s₁ r, MakesTable d (pdeIndex v) g s s₁ r ∧ s' = { s₁ with
        pt := Function.update s₁.pt (s₁.table d (pdeIndex v)) (Function.update
          (s₁.pt (s₁.table d (pdeIndex v))) (pteIndex v) (addFlags p f)) })
      (fun _ _ => True) s := by
  rw [pdCreateMapping, wp_ite]
  refine ⟨fun _ => .inl (by decide), fun hal => ?_⟩
  simp only [isPageAligned, not_or, not_not, decide_eq_true_eq] at hal
  rw [wp_bind]
  refine wp_imp (createTable_spec d _ g s) fun r s₁ hpost => ?_
  cases r with
  | none => exact .inl (by decide)
  | some y =>
      obtain ⟨pde, resource⟩ := y
      obtain ⟨hmk, rfl⟩ := hpost
      refine wp_mono (recordMapping_now (hmk.batch.1.trans hb) _ _ _ _) (fun c s' hpost => ?_)
        fun _ _ h => h.elim
      obtain ⟨rfl, rfl⟩ := hpost
      exact .inr ⟨rfl, hal.1, hal.2, s₁, resource, hmk, rfl⟩

/-- **`pd_create_mapping` in a batch.** -/
lemma pdCreateMapping_queued (hb : (s.pds d).batchEnabled = true) {v p f g : ℕ} :
    wp (pdCreateMapping d v p f g) (fun c s' => c < 0 ∨ c = 0 ∧ v % pageSize = 0 ∧
      p % pageSize = 0 ∧ ∃ s₁ r, MakesTable d (pdeIndex v) g s s₁ r ∧ ∃ heap ⊆ s₁.heap,
        s' = { s₁ with
        heap := heap
        pds := Function.update s₁.pds d ((s₁.pds d).addTask ⟨v, addFlags p f, r⟩) })
      (fun _ _ => True) s := by
  rw [pdCreateMapping, wp_ite]
  refine ⟨fun _ => .inl (by decide), fun hal => ?_⟩
  simp only [isPageAligned, not_or, not_not, decide_eq_true_eq] at hal
  rw [wp_bind]
  refine wp_imp (createTable_spec d _ g s) fun r s₁ hpost => ?_
  cases r with
  | none => exact .inl (by decide)
  | some y =>
      obtain ⟨pde, resource⟩ := y
      obtain ⟨hmk, rfl⟩ := hpost
      refine wp_imp (recordMapping_queued (hmk.batch.1.trans hb) _ _ _ _) fun c s' hpost => ?_
      obtain ⟨-, -, hneg | ⟨rfl, heap, hheap, rfl⟩⟩ := hpost
      · exact .inl hneg
      · exact .inr ⟨rfl, hal.1, hal.2, s₁, resource, hmk, heap, hheap, rfl⟩

/-- The checks of `pd_remove_mapping`: the page is mapped. -/
lemma pdRemoveMapping_checks {v : ℕ} (hv : v < 2 ^ 32) {Q : ℤ → Vm → Prop}
    {E : Fault → Vm → Prop} (hneg : ∀ c < 0, Q c s)
    (hok : v % pageSize = 0 → ∀ x, s.word d (v / pageSize) = some x → entryPresent x = true →
      wp (recordMapping d v (s.table d (pdeIndex v)) 0 none) Q E s) :
    wp (pdRemoveMapping d v) Q E s := by
  rw [pdRemoveMapping, wp_ite]
  refine ⟨fun _ => hneg _ (by decide), fun hal => ?_⟩
  rw [wp_bind, wp_entry, wp_ite]
  refine ⟨fun _ => hneg _ (by decide), fun hpde => ?_⟩
  rw [wp_bind, wp_pte, wp_ite]
  refine ⟨fun _ => hneg _ (by decide), fun hpte => ?_⟩
  rw [not_not] at hal hpde hpte
  refine hok (by simpa [isPageAligned] using hal) _ (Vm.word_of_present ?_) ?_
  · rwa [pdeIndex_eq hv] at hpde
  · rwa [pdeIndex_eq hv, pteIndex_eq] at hpte

/-- **`pd_remove_mapping` at once.** -/
lemma pdRemoveMapping_now (hb : (s.pds d).batchEnabled = false) {v : ℕ} (hv : v < 2 ^ 32) :
    wp (pdRemoveMapping d v) (fun c s' => c < 0 ∨ c = 0 ∧ v % pageSize = 0 ∧
      (∃ x, s.word d (v / pageSize) = some x ∧ entryPresent x = true) ∧ s' = { s with
        pt := Function.update s.pt (s.table d (pdeIndex v)) (Function.update
          (s.pt (s.table d (pdeIndex v))) (pteIndex v) 0) }) (fun _ _ => True) s := by
  refine pdRemoveMapping_checks hv (fun c hc => .inl hc) fun hal x hx hpre => ?_
  refine wp_mono (recordMapping_now hb _ _ _ _) (fun c s' hpost => ?_) fun _ _ h => h.elim
  exact .inr ⟨hpost.1, hal, ⟨x, hx, hpre⟩, hpost.2⟩

/-- **`pd_remove_mapping` in a batch**; the tables stay as they are. -/
lemma pdRemoveMapping_queued (hb : (s.pds d).batchEnabled = true) {v : ℕ} (hv : v < 2 ^ 32) :
    wp (pdRemoveMapping d v) (fun c s' => s'.tables d = s.tables d ∧
      (s'.pds d).batchEnabled = true ∧ (c < 0 ∨ c = 0 ∧ v % pageSize = 0 ∧
        (∃ x, s.word d (v / pageSize) = some x ∧ entryPresent x = true) ∧
        (s'.pds d).mappingTasks = (s.pds d).mappingTasks ++ [⟨v, 0, none⟩] ∧
        s'.live = s.live ∧ s'.heap ⊆ s.heap))
      (fun _ _ => True) s := by
  refine pdRemoveMapping_checks hv (fun c hc => ⟨rfl, hb, .inl hc⟩) fun hal x hx hpre => ?_
  refine wp_imp (recordMapping_queued hb _ _ _ _) fun c s' hpost => ?_
  obtain ⟨htab, hb', hneg | ⟨rfl, heap, hheap, rfl⟩⟩ := hpost
  · exact ⟨htab, hb', .inl hneg⟩
  · refine ⟨htab, hb', .inr ⟨rfl, hal, ⟨x, hx, hpre⟩, ?_, rfl, hheap⟩⟩
    simp [PageDirectory.addTask_mappingTasks hb]

end ShrekOS
