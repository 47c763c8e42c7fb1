/-
What a batch of mappings makes of the page tables, exactly.

* `Grown`: what a call in a batch keeps: the slots that are present, and the page
  tables in use;
* `Staged`: a batch under way, all of whose tasks are about user pages and have a page
  table that is present; `pdCreateMapping_staged`, `pdRemoveMapping_staged`: its steps;
* `stage`: a task as a change of the map from pages to entries;
* `pdCommitMapping_staged`: **a committed batch is its tasks, one after the other**;
* `strip`: the tasks about pages that follow each other, and what they write.

`Filling` knows of a slot only that it is not zero, so a page may be lost in a commit.
Here the slots are present, as with all directory flags that the kernel uses.
-/
import ShrekOS.Mem.UserMap

namespace ShrekOS

open Kit Kit.Cmd Vm

variable {s s' : Vm} {d : ℕ} {M : ℕ → ℕ → Option ℕ} {E : Fault → Vm → Prop}

/-! ### What a call keeps -/

/-- The pages of the whole address space. -/
def Page (w : ℕ) : Prop := w / numEntries < numEntries

lemma UserPage.page {w : ℕ} (hw : UserPage w) : Page w := hw.2

lemma page_of_lt {w : ℕ} (hw : w < 2 ^ 20) : Page w := by
  simp only [Page, numEntries]
  omega

/-- What a call in a batch keeps: the slots that are present, and the page tables in use. -/
structure Grown (s s' : Vm) : Prop where
  slots : ∀ {e i}, entryPresent (s.dirs e i) = true → s'.dirs e i = s.dirs e i
  tables : ∀ {t}, s.live t = true → s'.pt t = s.pt t

namespace Grown

lemma of_eq (hd : s'.dirs = s.dirs) (hp : s'.pt = s.pt) : Grown s s' :=
  ⟨fun _ => by rw [hd], fun _ => by rw [hp]⟩

/-- A page with a page table keeps its entry. -/
lemma pageEntry (h : Grown s s') (hT : Tables s.dirs s.live) {e w : ℕ} (hw : Page w)
    (hpre : entryPresent (s.dirs e (w / numEntries)) = true) :
    s'.pageEntry e w = s.pageEntry e w :=
  pageEntry_congr (h.slots hpre) fun _ => by rw [h.tables (hT.live hw (ne_zero_of_present hpre))]

end Grown

/-- The end of a call in a batch uses two answers of the heap. -/
lemma recordMapping_grown (hg : Generous s) (hb : (s.pds d).batchEnabled = true) (v t x : ℕ)
    (r : Option ℕ) :
    wp (recordMapping d v t x r) (fun _ s' => s'.dirs = s.dirs ∧ s'.pt = s.pt ∧
      s'.heap = s.heap.drop 2) (fun _ _ => s.heap.length < 2) s := by
  simp only [recordMapping, wp_bind, wp_gets, hb, if_true, wp_malloc]
  rcases hh : s.heap with _ | ⟨r₁, _ | ⟨r₂, rs⟩⟩
  · simp
  · obtain ⟨a, rfl⟩ := Option.ne_none_iff_exists'.mp (hg r₁ (by simp [hh]))
    simp [wp_ite]
  · obtain ⟨a, rfl⟩ := Option.ne_none_iff_exists'.mp (hg r₁ (by simp [hh]))
    obtain ⟨b, rfl⟩ := Option.ne_none_iff_exists'.mp (hg r₂ (by simp [hh]))
    dsimp only
    rw [wp_ite]
    refine ⟨fun hc => absurd hc (by simp), fun _ => ?_⟩
    rw [wp_bind, wp_malloc]
    dsimp only
    rw [wp_ite]
    refine ⟨fun hc => absurd hc (by simp), fun _ => ?_⟩
    rw [wp_bind, wp_gets, wp_bind, wp_setPd, wp_pure]
    exact ⟨dirs_eq_of_update (s := s) rfl (by simp), rfl, rfl⟩

/-- A slot that gets a page table becomes present, and nothing else changes. -/
lemma createTable_grown (hg : Generous s) (d i : ℕ) {f : ℕ} (hf : entryPresent f = true) :
    wp (createTable d i f) (fun _ s' => Grown s s' ∧ Generous s' ∧
      (s'.pds d).batchEnabled = (s.pds d).batchEnabled ∧ entryPresent (s'.dirs d i) = true)
      (fun e _ => Halts e) s := by
  rw [createTable, wp_bind, wp_entry, wp_ite]
  refine ⟨fun hpre => ⟨.of_eq rfl rfl, hg, rfl, hpre⟩, fun hpre => ?_⟩
  rw [wp_bind]
  refine memalign_generous hg fun a rs hal _ hfree hgen => ?_
  dsimp only
  simp only [wp_bind, wp_clearTable, wp_setEntry, wp_pure]
  refine ⟨⟨fun {e j} hj => ?_, fun {t} ht => ?_⟩, hgen, by simp, ?_⟩
  · rw [dirs_of_update (s := s) rfl]
    split_ifs with he
    · subst he
      have hne : j ≠ i := by
        rintro rfl
        exact hpre hj
      simp [Function.update_of_ne hne, dirs]
    · rfl
  · have hne : t ≠ a := by
      rintro rfl
      simp [hfree] at ht
    simp [Function.update_of_ne hne]
  · rw [dirs_of_update (s := s) rfl, if_pos rfl]
    simp only [Function.update_self]
    rw [entryPresent_addFlags hal, hf]

/-- After `pd_create_mapping` in a batch the slot of the page is present. -/
lemma pdCreateMapping_grown (hg : Generous s) (hb : (s.pds d).batchEnabled = true) {v p x f : ℕ}
    (hva : v % pageSize = 0) (hpa : p % pageSize = 0) (hf : entryPresent f = true) :
    wp (pdCreateMapping d v p x f) (fun _ s' => Grown s s' ∧
      entryPresent (s'.dirs d (pdeIndex v)) = true) (fun _ _ => True) s := by
  rw [pdCreateMapping, wp_ite]
  refine ⟨fun hc => absurd hc (by simp [isPageAligned, hva, hpa]), fun _ => ?_⟩
  rw [wp_bind]
  refine wp_mono (createTable_grown hg d (pdeIndex v) hf) (fun r s₁ hpost => ?_)
    fun _ _ _ => trivial
  obtain ⟨h₁, hg₁, hb₁, hpre⟩ := hpost
  rcases r with _ | ⟨pde, t⟩
  · exact ⟨h₁, hpre⟩
  · dsimp only
    refine wp_mono (recordMapping_grown hg₁ (hb₁.trans hb) _ _ _ t)
      (fun _ s₂ hpost => ?_) fun _ _ _ => trivial
    obtain ⟨hd, hp, _⟩ := hpost
    rw [hd]
    exact ⟨⟨fun hj => by rw [hd]; exact h₁.slots hj,
      fun ht => by rw [hp]; exact h₁.tables ht⟩, hpre⟩

/-! ### Batches whose slots are present -/

/-- The address is one of a user page, and its page table is present. -/
def Ready (s : Vm) (d v : ℕ) : Prop :=
  numKernelPde ≤ pdeIndex v ∧ entryPresent (s.dirs d (pdeIndex v)) = true

/-- A batch on `d` is under way: all entries are still those of `M`, and every task is
about a user page whose page table is present. -/
structure Staged (d : ℕ) (M : ℕ → ℕ → Option ℕ) (s : Vm) : Prop extends Filling d M s where
  low : ∀ {e w}, w / numEntries < numKernelPde → s.pageEntry e w = M e w
  ready : ∀ t ∈ (s.pds d).mappingTasks, Ready s d t.vAddr

namespace Staged

lemma page (h : Staged d M s) {e w : ℕ} (hw : Page w) : s.pageEntry e w = M e w := by
  by_cases hlow : w / numEntries < numKernelPde
  · exact h.low hlow
  · exact h.entries ⟨not_lt.mp hlow, hw⟩

/-- A call of the batch added a task. -/
lemma add (h : Staged d M s) (hf : Filling d M s') (hgrown : Grown s s') {t : MappingTask}
    (ht : (s'.pds d).mappingTasks = (s.pds d).mappingTasks ++ [t]) (hready : Ready s' d t.vAddr) :
    Staged d M s' := by
  refine ⟨hf, fun {e w} hw => ?_, fun u hu => ?_⟩
  · rw [← h.low hw]
    refine hgrown.pageEntry h.tables ?_ (h.tables.kernel hw)
    simp only [Page, numEntries, numKernelPde] at *
    omega
  · rw [ht, List.mem_append, List.mem_singleton] at hu
    rcases hu with hu | rfl
    · obtain ⟨h1, h2⟩ := h.ready u hu
      exact ⟨h1, by rw [hgrown.slots h2, h2]⟩
    · exact hready

end Staged

/-- `pd_begin_mapping`. -/
lemma pdBeginMapping_staged (h : Settled s) (d : ℕ) :
    wp (pdBeginMapping d) (fun r s' => r = 0 ∧ Staged d s.pageEntry s' ∧
      (s'.pds d).mappingTasks = [] ∧ s'.heap = s.heap) E s := by
  have hpt : wp (pdBeginMapping d) (fun _ s' => s'.dirs = s.dirs ∧ s'.pt = s.pt ∧
      s'.heap = s.heap) E s := by
    rw [pdBeginMapping, wp_bind, wp_gets, wp_ite]
    refine ⟨fun _ => ⟨rfl, rfl, rfl⟩, fun _ => ?_⟩
    rw [wp_bind, wp_setPd, wp_pure]
    exact ⟨dirs_eq_of_update (s := s) rfl rfl, rfl, rfl⟩
  refine wp_imp (wp_and (pdBeginMapping_fill h d) hpt)
    fun r s₁ hpost => ?_
  obtain ⟨⟨hr, hf, ht⟩, hd, hp, hheap⟩ := hpost
  refine ⟨hr, ⟨hf, fun _ => ?_, by simp [ht]⟩, ht, hheap⟩
  rw [pageEntry_eq_of hd hp]

/-- **`pd_create_mapping` of a user page in a batch** adds a task. -/
lemma pdCreateMapping_staged (h : Staged d M s) {v p x f : ℕ} (hv : v < 2 ^ 32)
    (hva : v % pageSize = 0) (hpa : p % pageSize = 0) (hf : f < 2 ^ 12)
    (hpre : entryPresent f = true) (hu : UserPage (v / pageSize)) :
    wp (pdCreateMapping d v p x f) (fun c s' => c = 0 ∧ Staged d M s' ∧
      ∃ r, (s'.pds d).mappingTasks = (s.pds d).mappingTasks ++ [⟨v, addFlags p x, r⟩])
      (fun e _ => Halts e) s := by
  have hb : (s.pds d).batchEnabled = true := (h.batch d).mpr rfl
  refine wp_mono (wp_both (pdCreateMapping_fill h.toFilling hv hva hpa hf)
    (pdCreateMapping_grown h.generous hb hva hpa hpre))
    (fun c s₁ ⟨⟨hc, hf₁, r, ht⟩, hgrown, hpre₁⟩ => ?_) fun _ _ he => he.1
  exact ⟨hc, h.add hf₁ hgrown ht ⟨by rw [pdeIndex_eq hv]; exact hu.1, hpre₁⟩, r, ht⟩

/-- **`pd_remove_mapping` of a user page that is mapped, in a batch**, adds a task. It
stops only when the heap has less than two answers left. -/
lemma pdRemoveMapping_staged (h : Staged d M s) {v : ℕ} (hv : v < 2 ^ 32)
    (hva : v % pageSize = 0) (hu : UserPage (v / pageSize)) (hm : M d (v / pageSize) ≠ none) :
    wp (pdRemoveMapping d v) (fun c s' => c = 0 ∧ Staged d M s' ∧ s'.ledger = s.ledger ∧
      s'.heap = s.heap.drop 2 ∧
      (s'.pds d).mappingTasks = (s.pds d).mappingTasks ++ [⟨v, 0, none⟩])
      (fun _ _ => s.heap.length < 2) s := by
  have hb : (s.pds d).batchEnabled = true := (h.batch d).mpr rfl
  have hpre : entryPresent (s.dirs d (pdeIndex v)) = true ∧
      entryPresent (s.pt (removeFlags (s.dirs d (pdeIndex v))) (pteIndex v)) = true := by
    rw [← h.entries hu] at hm
    obtain ⟨u, hu'⟩ := Option.ne_none_iff_exists'.mp hm
    obtain ⟨h1, h2, rfl⟩ := pageEntry_eq_some.mp hu'
    rw [pdeIndex_eq hv, pteIndex_eq]
    exact ⟨h1, h2⟩
  have hgrown : wp (pdRemoveMapping d v) (fun _ s' => s'.dirs = s.dirs ∧ s'.pt = s.pt ∧
      s'.heap = s.heap.drop 2) (fun _ _ => s.heap.length < 2) s := by
    rw [pdRemoveMapping, wp_ite]
    refine ⟨fun hc => absurd hc (by simp [isPageAligned, hva]), fun _ => ?_⟩
    rw [wp_bind, wp_entry, wp_ite]
    refine ⟨fun hc => absurd hpre.1 hc, fun _ => ?_⟩
    rw [wp_bind, wp_pte, wp_ite]
    exact ⟨fun hc => absurd hpre.2 hc, fun _ => recordMapping_grown h.generous hb _ _ _ none⟩
  refine wp_mono (wp_both (wp_and (KeepsLedger.pdRemoveMapping d v s)
    (pdRemoveMapping_fill h.toFilling hv hva hu)) hgrown)
    (fun c s₁ hpost => ?_) fun _ _ he => he.2
  obtain ⟨⟨hl, hc⟩, hd, hp, hheap⟩ := hpost
  rcases hc with ⟨-, -, hnone⟩ | ⟨hc, hf₁, -, ht⟩
  · exact absurd hnone hm
  · refine ⟨hc, h.add hf₁ (.of_eq hd hp) ht ⟨?_, by rw [hd]; exact hpre.1⟩, hl, hheap, ht⟩
    rw [pdeIndex_eq hv]
    exact hu.1

/-! ### The end of a batch -/

/-- What a task writes: its address and its entry. -/
def MappingTask.write (t : MappingTask) : ℕ × ℕ := (t.vAddr, t.pte)

/-- An entry that is not present maps nothing. -/
def present (v : ℕ) : Option ℕ := if entryPresent v = true then some v else none

@[simp] lemma present_zero : present 0 = none := rfl

lemma present_of {v : ℕ} (h : entryPresent v = true) : present v = some v := if_pos h

/-- One write, as a change of the map from pages to entries. -/
def stage (m : ℕ → Option ℕ) (u : ℕ × ℕ) : ℕ → Option ℕ :=
  Function.update m (u.1 / pageSize) (present u.2)

/-- Writing an entry of a page table that is present changes the entry of that page. -/
lemma pageEntry_stage {dirs pt pt' : ℕ → ℕ → ℕ} {live : ℕ → Bool} (hT : Tables dirs live)
    {v x : ℕ} (hv : v < 2 ^ 32) (h4 : numKernelPde ≤ pdeIndex v)
    (hpre : entryPresent (dirs d (pdeIndex v)) = true)
    (hpt : pt' = Function.update pt (removeFlags (dirs d (pdeIndex v)))
      (Function.update (pt (removeFlags (dirs d (pdeIndex v)))) (pteIndex v) x))
    {e w : ℕ} (hw : Page w) :
    pageEntry dirs pt' e w =
      if e = d then stage (pageEntry dirs pt d) (v, x) w else pageEntry dirs pt e w := by
  subst hpt
  -- another page has another table, or another place in the same one
  have hother : ¬ (e = d ∧ w = v / pageSize) → pageEntry dirs
      (Function.update pt (removeFlags (dirs d (pdeIndex v)))
        (Function.update (pt (removeFlags (dirs d (pdeIndex v)))) (pteIndex v) x)) e w =
      pageEntry dirs pt e w := by
    refine fun hcase => pageEntry_congr rfl fun hpre' => ?_
    by_cases heq : removeFlags (dirs d (pdeIndex v)) = removeFlags (dirs e (w / numEntries))
    · obtain ⟨rfl, hslot⟩ := hT.unique h4 (pdeIndex_lt v) hw (ne_zero_of_present hpre)
        (ne_zero_of_present hpre') heq
      have hne : w % numEntries ≠ pteIndex v := by
        intro hj
        refine hcase ⟨rfl, ?_⟩
        rw [pdeIndex_eq hv] at hslot
        rw [pteIndex_eq] at hj
        rw [← Nat.div_add_mod w numEntries, ← hslot, hj, Nat.div_add_mod]
      rw [heq, Function.update_self, Function.update_of_ne hne]
    · rw [Function.update_of_ne (Ne.symm heq)]
  by_cases he : e = d
  · subst he
    rw [if_pos rfl, stage]
    by_cases hpage : w = v / pageSize
    · subst hpage
      rw [Function.update_self, pageEntry, ← pdeIndex_eq hv, ← pteIndex_eq, Function.update_self,
        Function.update_self, present]
      simp [hpre]
    · rw [Function.update_of_ne hpage]
      exact hother fun hcase => hpage hcase.2
  · rw [if_neg he]
    exact hother fun hcase => he hcase.1

/-- What is written to a page does not depend on the other ones. -/
lemma foldl_stage_congr {m m' : ℕ → Option ℕ} {w : ℕ} : ∀ (us : List (ℕ × ℕ)), m w = m' w →
    us.foldl stage m w = us.foldl stage m' w
  | [], h => h
  | u :: us, h => by
      refine foldl_stage_congr us ?_
      rw [stage, stage, Function.update_apply, Function.update_apply, h]

/-- The loop of `pd_commit_mapping` writes the tasks, one after the other. -/
lemma commitTasks_stage : ∀ (tasks : List MappingTask) {s : Vm}, Tables s.dirs s.live →
    (∀ t ∈ tasks, t.vAddr < 2 ^ 32 ∧ Ready s d t.vAddr) →
    wp (commitTasks d tasks) (fun _ s' => s' = { s with pt := s'.pt } ∧
      ∀ {e w}, Page w → s'.pageEntry e w = if e = d then
        (tasks.map MappingTask.write).foldl stage (s.pageEntry d) w else s.pageEntry e w) E s := by
  intro tasks
  induction tasks with
  | nil =>
      refine fun _ _ => ⟨rfl, fun {e w} _ => ?_⟩
      split_ifs with he
      · rw [he]
        rfl
      · rfl
  | cons t tasks ih =>
      intro s hT hs
      obtain ⟨hv, h4, hpre⟩ := hs t (.head tasks)
      rw [commitTasks, wp_bind, wp_entry, wp_bind, wp_setPte]
      set table := removeFlags (s.dirs d (pdeIndex t.vAddr)) with htable
      set s₁ : Vm := { s with
        pt := Function.update s.pt table
          (Function.update (s.pt table) (pteIndex t.vAddr) t.pte) } with hs₁
      have hwrite : ∀ {e w}, Page w → s₁.pageEntry e w =
          if e = d then stage (s.pageEntry d) t.write w else s.pageEntry e w :=
        fun hw => pageEntry_stage hT hv h4 hpre rfl hw
      refine wp_imp (ih (s := s₁) hT fun t' ht' => hs t' (.tail t ht')) fun _ s₂ hpost => ?_
      obtain ⟨he, h₂⟩ := hpost
      refine ⟨by rw [he], fun {e w} hw => ?_⟩
      rw [h₂ hw, List.map_cons, List.foldl_cons]
      split_ifs with hed
      · exact foldl_stage_congr _ (by rw [hwrite hw, if_pos rfl])
      · rw [hwrite hw, if_neg hed]

/-- **A committed batch is its tasks, one after the other.** -/
theorem pdCommitMapping_staged (h : Staged d M s) :
    wp (pdCommitMapping d) (fun _ s' => Settled s' ∧ s'.heap = s.heap ∧
      ∀ {e w}, Page w → s'.pageEntry e w = if e = d then
        ((s.pds d).mappingTasks.map MappingTask.write).foldl stage (M d) w else M e w) E s := by
  rw [pdCommitMapping, wp_bind, wp_gets, wp_bind]
  refine wp_imp (commitTasks_stage (s := s) _ h.tables fun t ht => ⟨(h.slots t ht).1, h.ready t ht⟩)
    fun _ s₁ hpost => ?_
  obtain ⟨he, hw₁⟩ := hpost
  rw [wp_bind, wp_gets, wp_setPd, he]
  refine ⟨settled_of_filling h.toFilling _ rfl rfl, rfl, fun {e w} hw => ?_⟩
  have hentry : ({ s with
      pt := s₁.pt
      pds := Function.update s.pds d
        { s.pds d with mappingTasks := [], batchEnabled := false, idle := fun _ => rfl } } :
      Vm).pageEntry = s₁.pageEntry := by
    refine pageEntry_eq_of ?_ rfl
    rw [he]
    exact dirs_eq_of_update (s := s) rfl rfl
  rw [hentry, hw₁ hw]
  split_ifs
  · exact foldl_stage_congr _ (h.page hw)
  · exact h.page hw

/-! ### Pages that follow each other -/

/-- Writes to the `n` pages from `first` on, with the entries `f`. -/
def strip (first : ℕ) (f : ℕ → ℕ) (n : ℕ) : List (ℕ × ℕ) :=
  (List.range n).map fun i => (pageSize * (first + i), f i)

lemma strip_succ (first : ℕ) (f : ℕ → ℕ) (n : ℕ) :
    strip first f (n + 1) = strip first f n ++ [(pageSize * (first + n), f n)] := by
  rw [strip, List.range_succ, List.map_append]
  rfl

/-- What the writes make of a page. -/
lemma strip_foldl (m : ℕ → Option ℕ) (first : ℕ) (f : ℕ → ℕ) (n w : ℕ) :
    (strip first f n).foldl stage m w =
      if first ≤ w ∧ w < first + n then present (f (w - first)) else m w := by
  induction n with
  | zero => rw [if_neg (by omega)]; rfl
  | succ n ih =>
      rw [strip_succ, List.foldl_append, List.foldl_cons, List.foldl_nil, stage,
        Nat.mul_div_cancel_left _ FrameManager.pageSize_pos]
      by_cases hw : w = first + n
      · subst hw
        rw [Function.update_self, if_pos (by omega), Nat.add_sub_cancel_left]
      · rw [Function.update_of_ne hw, ih]
        split_ifs
        · rfl
        · omega
        · omega
        · rfl

end ShrekOS
