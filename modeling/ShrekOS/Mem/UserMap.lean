/-
What the page tables map.

* `pageEntry`, `Vm.userMap`: the present page table entry of a page, and the physical
  pages of the user pages of every directory;
* `Tables`: every directory has page tables of its own for its user pages, and they
  are in use; `Tables.put`, `Tables.drop`: its moves;
* `Generous`: the heap always answers;
* `Filling`: a batch that is under way: the maps are as before, and every task has a
  page table to go to;
* `pdCreateMapping_fill`, `pdRemoveMapping_fill`, `pdCommitMapping_spec`: **a batch of
  mappings**, task by task and at its end.
-/
import ShrekOS.Mem.Ledger

namespace ShrekOS

open Kit Kit.Cmd Vm

/-! ### Reading a page table -/

/-- The present page table entry of the page `w` of the directory `d`. -/
def pageEntry (dirs pt : ℕ → ℕ → ℕ) (d w : ℕ) : Option ℕ :=
  let pde := dirs d (w / numEntries)
  let v := pt (removeFlags pde) (w % numEntries)
  if entryPresent pde = true ∧ entryPresent v = true then some v else none

/-- The pages of the user space. -/
def UserPage (w : ℕ) : Prop := numKernelPde ≤ w / numEntries ∧ w / numEntries < numEntries

instance (w : ℕ) : Decidable (UserPage w) := inferInstanceAs (Decidable (_ ∧ _))

lemma pageEntry_eq_some {dirs pt : ℕ → ℕ → ℕ} {d w v : ℕ} :
    pageEntry dirs pt d w = some v ↔ entryPresent (dirs d (w / numEntries)) = true ∧
      entryPresent v = true ∧ pt (removeFlags (dirs d (w / numEntries))) (w % numEntries) = v := by
  rw [pageEntry]
  split_ifs with h
  · rw [Option.some.injEq]
    constructor
    · rintro rfl
      exact ⟨h.1, h.2, rfl⟩
    · exact fun hv => hv.2.2
  · simp only [false_iff]
    rintro ⟨h1, h2, rfl⟩
    exact h ⟨h1, h2⟩

/-- An entry depends on its slot and on the entry of its page table. -/
lemma pageEntry_congr {dirs dirs' pt pt' : ℕ → ℕ → ℕ} {d w : ℕ}
    (hd : dirs' d (w / numEntries) = dirs d (w / numEntries))
    (hp : entryPresent (dirs d (w / numEntries)) = true →
      pt' (removeFlags (dirs d (w / numEntries))) (w % numEntries) =
        pt (removeFlags (dirs d (w / numEntries))) (w % numEntries)) :
    pageEntry dirs' pt' d w = pageEntry dirs pt d w := by
  rw [pageEntry, pageEntry, hd]
  by_cases hpre : entryPresent (dirs d (w / numEntries)) = true
  · rw [hp hpre]
  · simp [hpre]

/-- A page without a page table is not mapped. -/
lemma pageEntry_of_absent {dirs pt : ℕ → ℕ → ℕ} {d w : ℕ}
    (h : entryPresent (dirs d (w / numEntries)) = false) : pageEntry dirs pt d w = none := by
  rw [pageEntry]
  simp [h]

/-- The page tables of a 32 bit address are those of its page. -/
lemma pdeIndex_eq {v : ℕ} (hv : v < 2 ^ 32) : pdeIndex v = v / pageSize / numEntries := by
  simp only [pdeIndex, pageSize, numEntries]
  omega

lemma pteIndex_eq (v : ℕ) : pteIndex v = v / pageSize % numEntries := rfl

namespace Vm

/-- The entries of all directories. -/
def dirs (s : Vm) (d i : ℕ) : ℕ := (s.pds d).directory i

/-- The present page table entry of the page `w` of the directory `d`. -/
def pageEntry (s : Vm) : ℕ → ℕ → Option ℕ := ShrekOS.pageEntry s.dirs s.pt

/-- The physical page of the user page `w` of the directory `d`. -/
def userMap (s : Vm) (d w : ℕ) : Option ℕ :=
  if UserPage w then (s.pageEntry d w).map removeFlags else none

end Vm

variable {s s' : Vm} {d : ℕ}

lemma userMap_eq_some {w p : ℕ} : s.userMap d w = some p ↔
    UserPage w ∧ ∃ v, s.pageEntry d w = some v ∧ removeFlags v = p := by
  rw [userMap]
  split_ifs with h
  · rw [Option.map_eq_some_iff]
    simp [h]
  · simp [h]

/-- The user maps are the same when the entries of user pages are. -/
lemma userMap_congr (h : ∀ e w, UserPage w → s'.pageEntry e w = s.pageEntry e w) :
    s'.userMap = s.userMap := by
  funext e w
  rw [userMap, userMap]
  split_ifs with hw
  · rw [h e w hw]
  · rfl

/-! ### Page tables that nobody shares -/

/-- Every directory has page tables of its own for its user pages, and all page tables
are in use. -/
structure Tables (dirs : ℕ → ℕ → ℕ) (live : ℕ → Bool) : Prop where
  kernel : ∀ {d i}, i < numKernelPde → entryPresent (dirs d i) = true
  live : ∀ {d i}, i < numEntries → dirs d i ≠ 0 → live (removeFlags (dirs d i)) = true
  unique : ∀ {d i e j}, numKernelPde ≤ i → i < numEntries → j < numEntries → dirs d i ≠ 0 →
    dirs e j ≠ 0 → removeFlags (dirs d i) = removeFlags (dirs e j) → d = e ∧ i = j

lemma ne_zero_of_present {v : ℕ} (h : entryPresent v = true) : v ≠ 0 := by
  rintro rfl
  simp at h

namespace Tables

variable {dirs dirs' : ℕ → ℕ → ℕ} {lv lv' : ℕ → Bool} {i a : ℕ}

/-- A user slot gets a page table that was not in use. -/
lemma put {v : ℕ} (h : Tables dirs lv) (ha : lv a = false) (hv : removeFlags v = a)
    (hi : numKernelPde ≤ i) (hd : ∀ e j, dirs' e j = if e = d ∧ j = i then v else dirs e j)
    (hl : lv' = Function.update lv a true) : Tables dirs' lv' := by
  subst hl
  -- no old slot leads to the new table
  have hne : ∀ {e j}, j < numEntries → dirs e j ≠ 0 → removeFlags (dirs e j) ≠ a := by
    intro e j hj h0 heq
    have := h.live hj h0
    rw [heq, ha] at this
    simp at this
  refine ⟨?_, ?_, ?_⟩
  · intro e j hj
    rw [hd, if_neg (by omega)]
    exact h.kernel hj
  · intro e j hj h0
    rw [hd] at h0 ⊢
    split_ifs at h0 ⊢ with hej
    · rw [hv, Function.update_self]
    · rw [Function.update_of_ne (hne hj h0)]
      exact h.live hj h0
  · intro e j e' j' h4 hj hj' h0 h0' heq
    rw [hd] at h0 h0' heq
    rw [hd e' j'] at heq
    split_ifs at h0 h0' heq with h1 h2 h2
    · exact ⟨h1.1.trans h2.1.symm, h1.2.trans h2.2.symm⟩
    · exact absurd (heq.symm.trans hv) (hne hj' h0')
    · exact absurd (heq.trans hv) (hne hj h0)
    · exact h.unique h4 hj hj' h0 h0' heq

/-- A user slot loses its page table, which is freed. -/
lemma drop (h : Tables dirs lv) (hi : numKernelPde ≤ i) (hin : i < numEntries)
    (h0 : dirs d i ≠ 0) (hd : ∀ e j, dirs' e j = if e = d ∧ j = i then 0 else dirs e j)
    (hl : lv' = Function.update lv (removeFlags (dirs d i)) false) : Tables dirs' lv' := by
  subst hl
  refine ⟨?_, ?_, ?_⟩
  · intro e j hj
    rw [hd, if_neg (by omega)]
    exact h.kernel hj
  · intro e j hj hej
    rw [hd] at hej ⊢
    split_ifs at hej ⊢ with hcase
    · exact absurd rfl hej
    · have hne : removeFlags (dirs e j) ≠ removeFlags (dirs d i) := by
        intro heq
        obtain ⟨rfl, rfl⟩ := h.unique hi hin hj h0 hej heq.symm
        exact hcase ⟨rfl, rfl⟩
      rw [Function.update_of_ne hne]
      exact h.live hj hej
  · intro e j e' j' h4 hj hj' hej hej' heq
    rw [hd] at hej hej' heq
    rw [hd e' j'] at heq
    split_ifs at hej hej' heq with h1 h2 h2
    · exact absurd rfl hej
    · exact absurd rfl hej
    · exact absurd rfl hej'
    · exact h.unique h4 hj hj' hej hej' heq

end Tables

/-! ### A heap that always answers -/

/-- The heap never fails. -/
def Generous (s : Vm) : Prop := ∀ r ∈ s.heap, r ≠ none

lemma malloc_generous (hg : Generous s) {Q : Bool → Vm → Prop}
    (hQ : ∀ rs, Generous { s with heap := rs } → Q true { s with heap := rs }) :
    wp malloc Q (fun e _ => Halts e) s := by
  rw [wp_malloc]
  cases hh : s.heap with
  | nil => exact .inl rfl
  | cons r rs =>
      obtain ⟨a, rfl⟩ := Option.ne_none_iff_exists'.mp (hg r (by simp [hh]))
      refine hQ rs fun r' hr' => hg r' ?_
      rw [hh]
      exact .tail _ hr'

lemma memalign_generous (hg : Generous s) {Q : Option ℕ → Vm → Prop}
    (hQ : ∀ a rs, a % pageSize = 0 → 0 < a → s.live a = false →
      Generous { s with heap := rs } →
      Q (some a) { s with heap := rs, live := Function.update s.live a true }) :
    wp memalign Q (fun e _ => Halts e) s := by
  rw [wp_memalign]
  cases hh : s.heap with
  | nil => exact .inl rfl
  | cons r rs =>
      obtain ⟨a, rfl⟩ := Option.ne_none_iff_exists'.mp (hg r (by simp [hh]))
      dsimp only
      split_ifs with hok
      · refine hQ a rs hok.1 hok.2.1 hok.2.2.2 fun r' hr' => hg r' ?_
        rw [hh]
        exact .tail _ hr'
      · exact .inl rfl

/-! ### Batches under way -/

/-- No batch is under way. -/
structure Settled (s : Vm) : Prop where
  tables : Tables s.dirs s.live
  generous : Generous s
  idle : ∀ e, (s.pds e).batchEnabled = false

/-- A batch on `d` is under way: the entries of the user pages are still those of `M`,
and every task has a page table to go to. -/
structure Filling (d : ℕ) (M : ℕ → ℕ → Option ℕ) (s : Vm) : Prop where
  tables : Tables s.dirs s.live
  generous : Generous s
  batch : ∀ e, (s.pds e).batchEnabled = true ↔ e = d
  entries : ∀ {e w}, UserPage w → s.pageEntry e w = M e w
  slots : ∀ t ∈ (s.pds d).mappingTasks, t.vAddr < 2 ^ 32 ∧ s.dirs d (pdeIndex t.vAddr) ≠ 0

variable {M : ℕ → ℕ → Option ℕ} {E : Fault → Vm → Prop}

/-- The directories after one of them was replaced. -/
lemma dirs_of_update {pd : PageDirectory} (h : s'.pds = Function.update s.pds d pd) (e i : ℕ) :
    s'.dirs e i = if e = d then pd.directory i else s.dirs e i := by
  rw [dirs, h]
  by_cases he : e = d
  · rw [if_pos he, he, Function.update_self]
  · rw [if_neg he, Function.update_of_ne he, dirs]

/-- The directories are the same when the one that was replaced has the same entries. -/
lemma dirs_eq_of_update {pd : PageDirectory} (h : s'.pds = Function.update s.pds d pd)
    (hd : pd.directory = (s.pds d).directory) : s'.dirs = s.dirs := by
  funext e i
  rw [dirs_of_update h]
  split_ifs with he
  · rw [hd, he, dirs]
  · rfl

lemma pageEntry_eq_of {s s' : Vm} (hd : s'.dirs = s.dirs) (hp : s'.pt = s.pt) :
    s'.pageEntry = s.pageEntry := by
  rw [Vm.pageEntry, hd, hp, Vm.pageEntry]

/-- `pd_begin_mapping`. -/
lemma pdBeginMapping_fill (h : Settled s) (d : ℕ) :
    wp (pdBeginMapping d) (fun r s' => r = 0 ∧ Filling d s.pageEntry s' ∧
      (s'.pds d).mappingTasks = []) E s := by
  have hidle := h.idle d
  rw [pdBeginMapping, wp_bind, wp_gets, wp_ite]
  refine ⟨fun hb => absurd hb (by simp [hidle]), fun _ => ?_⟩
  rw [wp_bind, wp_setPd, wp_pure]
  set s₁ : Vm := { s with
    pds := Function.update s.pds d { s.pds d with batchEnabled := true, idle := by simp } } with hs₁
  have hdirs : s₁.dirs = s.dirs := dirs_eq_of_update (s := s) rfl rfl
  have htasks : (s₁.pds d).mappingTasks = [] := by
    simpa [hs₁] using (s.pds d).idle hidle
  refine ⟨rfl, ⟨hdirs ▸ h.tables, h.generous, fun e => ?_, fun _ => ?_, ?_⟩, htasks⟩
  · by_cases he : e = d
    · subst he
      simp [hs₁]
    · simp [hs₁, he, h.idle e]
  · rw [pageEntry_eq_of hdirs rfl]
  · rw [htasks]
    simp

/-- A slot of a batch gets a page table if it has none. -/
lemma createTable_fill (h : Filling d M s) (i : ℕ) {g : ℕ} (hg : g < 2 ^ 12) :
    wp (createTable d i g) (fun r s' => ∃ pde t, r = some (pde, t) ∧ Filling d M s' ∧
      s'.dirs d i ≠ 0 ∧ (s'.pds d).mappingTasks = (s.pds d).mappingTasks)
      (fun e _ => Halts e) s := by
  rw [createTable, wp_bind, wp_entry, wp_ite]
  refine ⟨fun hpre => ⟨_, _, rfl, h, ne_zero_of_present hpre, rfl⟩, fun hpre => ?_⟩
  rw [Bool.not_eq_true] at hpre
  -- the slots of the kernel have their tables, so this is one of the user's
  have h4 : numKernelPde ≤ i := by
    by_contra hlt
    have : entryPresent (s.dirs d i) = true := h.tables.kernel (not_le.mp hlt)
    rw [dirs, hpre] at this
    simp at this
  rw [wp_bind]
  -- the heap has a page for the table
  refine memalign_generous h.generous fun a rs hal hpos hfree hgen => ?_
  dsimp only
  simp only [wp_bind, wp_clearTable, wp_setEntry, wp_pure]
  have hrem : removeFlags (addFlags a g) = a := removeFlags_addFlags hal hg
  set s₁ : Vm := { s with
    pds := Function.update s.pds d
      { s.pds d with directory := Function.update (s.pds d).directory i (addFlags a g) }
    pt := Function.update s.pt a fun _ => 0
    live := Function.update s.live a true
    heap := rs } with hs₁
  have hdirs : ∀ e j, s₁.dirs e j = if e = d ∧ j = i then addFlags a g else s.dirs e j := by
    intro e j
    rw [dirs_of_update (s := s) rfl]
    by_cases he : e = d
    · subst he
      by_cases hj : j = i
      · simp [hj]
      · simp [hj, dirs]
    · simp [he]
  have h0 : addFlags a g ≠ 0 := by
    rw [addFlags_eq_add hal hg]
    omega
  -- a table of a page that was not live, in a slot that led nowhere
  refine ⟨_, _, rfl, ⟨h.tables.put hfree hrem h4 hdirs rfl, hgen, fun e => ?_, fun {e w} hw => ?_,
    fun t ht => ?_⟩, ?_, ?_⟩
  · by_cases he : e = d
    · subst he
      simpa [hs₁] using h.batch e
    · simpa [hs₁, Function.update_of_ne he] using h.batch e
  · rw [← h.entries hw]
    by_cases hslot : e = d ∧ w / numEntries = i
    · -- the new table is empty, and the page had none before
      have hnew : s₁.pageEntry e w = none := by
        rw [Vm.pageEntry, ShrekOS.pageEntry, hdirs, if_pos hslot, hrem]
        simp [hs₁]
      have hold : s.pageEntry e w = none := by
        refine pageEntry_of_absent ?_
        rw [hslot.1, hslot.2]
        exact hpre
      rw [hnew, hold]
    · have hd : s₁.dirs e (w / numEntries) = s.dirs e (w / numEntries) := by
        rw [hdirs, if_neg hslot]
      -- a page under another slot: its table is not the new one, which was not live
      refine pageEntry_congr hd fun hp => ?_
      have hne : removeFlags (s.dirs e (w / numEntries)) ≠ a := by
        intro heq
        have := h.tables.live hw.2 (ne_zero_of_present hp)
        rw [heq, hfree] at this
        simp at this
      simp [hs₁, Function.update_of_ne hne]
  · have ht' : t ∈ (s.pds d).mappingTasks := by simpa [hs₁] using ht
    obtain ⟨hv, hs⟩ := h.slots t ht'
    refine ⟨hv, ?_⟩
    rw [hdirs]
    split_ifs
    · exact h0
    · exact hs
  · rw [hdirs, if_pos ⟨rfl, rfl⟩]
    exact h0
  · simp

/-- A task is added to a batch. -/
lemma recordMapping_fill (h : Filling d M s) {v : ℕ} (hv : v < 2 ^ 32)
    (hs : s.dirs d (pdeIndex v) ≠ 0) (t pte : ℕ) (r : Option ℕ) :
    wp (recordMapping d v t pte r) (fun c s' => c = 0 ∧ Filling d M s' ∧
      (s'.pds d).mappingTasks = (s.pds d).mappingTasks ++ [⟨v, pte, r⟩])
      (fun e _ => Halts e) s := by
  have hb : (s.pds d).batchEnabled = true := (h.batch d).mpr rfl
  rw [recordMapping, wp_bind, wp_gets, if_pos hb, wp_bind]
  refine malloc_generous h.generous fun rs hrs => ?_
  rw [wp_ite]
  refine ⟨fun hc => absurd hc (by simp), fun _ => ?_⟩
  rw [wp_bind]
  refine malloc_generous hrs fun rs' hrs' => ?_
  rw [wp_ite]
  refine ⟨fun hc => absurd hc (by simp), fun _ => ?_⟩
  rw [wp_bind, wp_gets, wp_bind, wp_setPd, wp_pure]
  set s₁ : Vm := { s with
    heap := rs'
    pds := Function.update s.pds d ((s.pds d).addTask ⟨v, pte, r⟩) } with hs₁
  have hdirs : s₁.dirs = s.dirs := dirs_eq_of_update (s := s) rfl (by simp)
  have htasks : (s₁.pds d).mappingTasks = (s.pds d).mappingTasks ++ [⟨v, pte, r⟩] := by
    simp [hs₁, PageDirectory.addTask_mappingTasks hb]
  refine ⟨rfl, ⟨hdirs ▸ h.tables, hrs', fun e => ?_, fun hw => ?_, fun t ht => ?_⟩, htasks⟩
  · by_cases he : e = d
    · subst he
      simpa [hs₁] using h.batch e
    · simpa [hs₁, Function.update_of_ne he] using h.batch e
  · rw [pageEntry_eq_of hdirs rfl, h.entries hw]
  · rw [htasks, List.mem_append, List.mem_singleton] at ht
    rw [hdirs]
    rcases ht with ht | rfl
    · exact h.slots t ht
    · exact ⟨hv, hs⟩

/-- **`pd_create_mapping` in a batch** adds a task. -/
lemma pdCreateMapping_fill (h : Filling d M s) {v p f g : ℕ} (hv : v < 2 ^ 32)
    (hva : v % pageSize = 0) (hpa : p % pageSize = 0) (hg : g < 2 ^ 12) :
    wp (pdCreateMapping d v p f g) (fun c s' => c = 0 ∧ Filling d M s' ∧
      ∃ r, (s'.pds d).mappingTasks = (s.pds d).mappingTasks ++ [⟨v, addFlags p f, r⟩])
      (fun e _ => Halts e) s := by
  rw [pdCreateMapping, wp_ite]
  refine ⟨fun hc => absurd hc (by simp [isPageAligned, hva, hpa]), fun _ => ?_⟩
  rw [wp_bind]
  refine wp_imp (createTable_fill h (pdeIndex v) hg) fun r s₁ hpost => ?_
  obtain ⟨pde, t, hr, h₁, hs₁, ht₁⟩ := hpost
  subst hr
  dsimp only
  refine wp_imp (recordMapping_fill h₁ hv hs₁ _ _ t) fun c s₂ hpost => ?_
  obtain ⟨hc, h₂, ht₂⟩ := hpost
  exact ⟨hc, h₂, t, by rw [ht₂, ht₁]⟩

/-- An address that is not aligned is refused. -/
lemma pdCreateMapping_unaligned {v : ℕ} (hva : v % pageSize ≠ 0) (p f g : ℕ) :
    wp (pdCreateMapping d v p f g) (fun c s' => c < 0 ∧ s' = s) E s := by
  rw [pdCreateMapping, wp_ite]
  exact ⟨fun _ => ⟨by simp, rfl⟩, fun hc => absurd hc (by simp [isPageAligned, hva])⟩

/-- **`pd_remove_mapping` in a batch** adds a task for a page that is mapped. -/
lemma pdRemoveMapping_fill (h : Filling d M s) {v : ℕ} (hv : v < 2 ^ 32)
    (hva : v % pageSize = 0) (hu : UserPage (v / pageSize)) :
    wp (pdRemoveMapping d v) (fun c s' => (c < 0 ∧ s' = s ∧ M d (v / pageSize) = none) ∨
      (c = 0 ∧ Filling d M s' ∧ M d (v / pageSize) ≠ none ∧
        (s'.pds d).mappingTasks = (s.pds d).mappingTasks ++ [⟨v, 0, none⟩]))
      (fun e _ => Halts e) s := by
  rw [← h.entries hu, pdRemoveMapping, wp_ite]
  refine ⟨fun hc => absurd hc (by simp [isPageAligned, hva]), fun _ => ?_⟩
  rw [wp_bind, wp_entry, pdeIndex_eq hv, wp_ite]
  constructor
  · intro hc
    rw [Bool.not_eq_true] at hc
    exact .inl ⟨by simp, rfl, pageEntry_of_absent hc⟩
  · intro hpre
    rw [not_not] at hpre
    rw [wp_bind, wp_pte, pteIndex_eq, wp_ite]
    constructor
    · intro hc
      refine .inl ⟨by simp, rfl, ?_⟩
      rw [Vm.pageEntry, ShrekOS.pageEntry]
      exact if_neg fun hboth => hc hboth.2
    · intro hv'
      rw [not_not] at hv'
      have hs : s.dirs d (pdeIndex v) ≠ 0 := by
        rw [pdeIndex_eq hv]
        exact ne_zero_of_present hpre
      refine wp_imp (recordMapping_fill h hv hs _ 0 none) fun c s₁ hpost => ?_
      obtain ⟨hc, h₁, ht₁⟩ := hpost
      refine .inr ⟨hc, h₁, ?_, ht₁⟩
      rw [Vm.pageEntry, ShrekOS.pageEntry, if_pos ⟨hpre, hv'⟩]
      simp

/-! ### The end of a batch -/

/-- Writing an entry of a user page changes that page alone, or none. -/
lemma pageEntry_write {dirs pt pt' : ℕ → ℕ → ℕ} {live : ℕ → Bool} (hT : Tables dirs live)
    {v x : ℕ} (hv : v < 2 ^ 32) (h0 : dirs d (pdeIndex v) ≠ 0)
    (hpt : pt' = Function.update pt (removeFlags (dirs d (pdeIndex v)))
      (Function.update (pt (removeFlags (dirs d (pdeIndex v)))) (pteIndex v) x))
    {e w : ℕ} (hw : UserPage w) :
    (e = d ∧ v / pageSize = w ∧
      (pageEntry dirs pt' e w = none ∨ pageEntry dirs pt' e w = some x)) ∨
    (¬ (e = d ∧ v / pageSize = w) ∧ pageEntry dirs pt' e w = pageEntry dirs pt e w) := by
  subst hpt
  by_cases hcase : e = d ∧ v / pageSize = w
  · obtain ⟨rfl, rfl⟩ := hcase
    refine .inl ⟨rfl, rfl, ?_⟩
    rw [pageEntry, ← pdeIndex_eq hv, ← pteIndex_eq, Function.update_self, Function.update_self]
    split_ifs
    · exact .inr rfl
    · exact .inl rfl
  · refine .inr ⟨hcase, pageEntry_congr rfl fun hpre => ?_⟩
    by_cases heq : removeFlags (dirs e (w / numEntries)) = removeFlags (dirs d (pdeIndex v))
    · -- the same table, so the same slot, and another place in it
      obtain ⟨rfl, hslot⟩ :=
        hT.unique hw.1 hw.2 (pdeIndex_lt v) (ne_zero_of_present hpre) h0 heq
      have hne : w % numEntries ≠ pteIndex v := by
        intro hj
        refine hcase ⟨rfl, ?_⟩
        rw [pdeIndex_eq hv] at hslot
        rw [pteIndex_eq] at hj
        rw [← Nat.div_add_mod w numEntries, hslot, hj, Nat.div_add_mod]
      rw [heq, Function.update_self, Function.update_of_ne hne]
    · rw [Function.update_of_ne heq]

/-- The task `t` is about the page `w`. -/
def MappingTask.About (t : MappingTask) (w : ℕ) : Prop := t.vAddr / pageSize = w

/-- What a list of tasks on `d` may have made of an entry. -/
def Written (d : ℕ) (tasks : List MappingTask) (old new : ℕ → ℕ → Option ℕ) : Prop :=
  ∀ {e w}, UserPage w →
    (¬ (e = d ∧ ∃ t ∈ tasks, t.About w) ∧ new e w = old e w) ∨
    (e = d ∧ ∃ t ∈ tasks, t.About w ∧ (new e w = none ∨ new e w = some t.pte))

/-- The loop of `pd_commit_mapping` writes the tasks. -/
lemma commitTasks_spec : ∀ (tasks : List MappingTask) {s : Vm}, Tables s.dirs s.live →
    (∀ t ∈ tasks, t.vAddr < 2 ^ 32 ∧ s.dirs d (pdeIndex t.vAddr) ≠ 0) →
    wp (commitTasks d tasks) (fun _ s' => s' = { s with pt := s'.pt } ∧
      Written d tasks s.pageEntry s'.pageEntry) E s := by
  intro tasks
  induction tasks with
  | nil => exact fun _ _ => ⟨rfl, fun _ => .inl ⟨by simp, rfl⟩⟩
  | cons t tasks ih =>
      intro s hT hs
      obtain ⟨hv, h0⟩ := hs t (.head tasks)
      rw [commitTasks, wp_bind, wp_entry, wp_bind, wp_setPte]
      set table := removeFlags (s.dirs d (pdeIndex t.vAddr)) with htable
      set s₁ : Vm := { s with
        pt := Function.update s.pt table
          (Function.update (s.pt table) (pteIndex t.vAddr) t.pte) } with hs₁
      refine wp_imp (ih (s := s₁) hT fun t' ht' => hs t' (.tail t ht')) fun _ s₂ ⟨he, h₂⟩ => ?_
      refine ⟨by rw [he], fun {e w} hw => ?_⟩
      rcases h₂ (e := e) hw with ⟨hno, heq⟩ | ⟨rfl, t', ht', hab, hnew⟩
      · have hwrite : (e = d ∧ t.About w ∧
            (s₁.pageEntry e w = none ∨ s₁.pageEntry e w = some t.pte)) ∨
            (¬ (e = d ∧ t.About w) ∧ s₁.pageEntry e w = s.pageEntry e w) :=
          pageEntry_write hT hv h0 rfl hw
        rcases hwrite with ⟨rfl, hab, hnew⟩ | ⟨hnot, hold⟩
        · refine .inr ⟨rfl, t, .head tasks, hab, ?_⟩
          rwa [heq]
        · refine .inl ⟨?_, heq.trans hold⟩
          rintro ⟨hed, t', ht', hab⟩
          rcases List.mem_cons.mp ht' with rfl | ht'
          · exact hnot ⟨hed, hab⟩
          · exact hno ⟨hed, t', ht', hab⟩
      · exact .inr ⟨rfl, t', .tail t ht', hab, hnew⟩

/-- The end of a batch: the tasks are gone. -/
lemma settled_of_filling (h : Filling d M s) {pd : PageDirectory} (pt : ℕ → ℕ → ℕ)
    (hd : pd.directory = (s.pds d).directory) (hb : pd.batchEnabled = false) :
    Settled { s with pt := pt, pds := Function.update s.pds d pd } := by
  have hdirs : ({ s with pt := pt, pds := Function.update s.pds d pd } : Vm).dirs = s.dirs :=
    dirs_eq_of_update (s := s) rfl hd
  refine ⟨hdirs ▸ h.tables, h.generous, fun e => ?_⟩
  by_cases he : e = d
  · subst he
    simpa using hb
  · have := (h.batch e).not.mpr he
    simpa [Function.update_of_ne he] using this

/-- **`pd_commit_mapping`** writes the tasks of the batch. -/
lemma pdCommitMapping_spec (h : Filling d M s) :
    wp (pdCommitMapping d) (fun _ s' => Settled s' ∧
      Written d (s.pds d).mappingTasks M s'.pageEntry) E s := by
  rw [pdCommitMapping, wp_bind, wp_gets, wp_bind]
  refine wp_imp (commitTasks_spec _ h.tables h.slots) fun _ s₁ ⟨he, hw₁⟩ => ?_
  rw [wp_bind, wp_gets, wp_setPd, he]
  refine ⟨settled_of_filling h _ rfl rfl, fun {e w} hw => ?_⟩
  rw [← h.entries hw]
  have hentry : ({ s with
      pt := s₁.pt
      pds := Function.update s.pds d
        { s.pds d with mappingTasks := [], batchEnabled := false, idle := fun _ => rfl } } :
      Vm).pageEntry = s₁.pageEntry := by
    refine pageEntry_eq_of ?_ rfl
    rw [he]
    exact dirs_eq_of_update (s := s) rfl rfl
  rw [hentry]
  exact hw₁ hw

/-- Tasks without page tables leave nothing to free. -/
lemma wp_freeResources_none : ∀ {tasks : List MappingTask}, (∀ t ∈ tasks, t.resource = none) →
    ∀ {s : Vm} {Q : Unit → Vm → Prop} {E : Fault → Vm → Prop}, Q () s →
    wp (freeResources tasks) Q E s
  | [], _, _, _, _, hQ => hQ
  | t :: tasks, h, _, _, _, hQ => by
      rw [freeResources, wp_bind, wp_free, h t (.head tasks)]
      exact wp_freeResources_none (fun t' ht' => h t' (.tail t ht')) hQ

/-- **`pd_abort_mapping`** of a batch that got no page table. -/
lemma pdAbortMapping_settled (h : Filling d M s)
    (hres : ∀ t ∈ (s.pds d).mappingTasks, t.resource = none) :
    wp (pdAbortMapping d) (fun _ s' => Settled s' ∧
      ∀ {e w}, UserPage w → s'.pageEntry e w = M e w) E s := by
  rw [pdAbortMapping, wp_bind, wp_gets, wp_bind]
  refine wp_freeResources_none hres ?_
  rw [wp_bind, wp_gets, wp_setPd]
  refine ⟨settled_of_filling h s.pt rfl rfl, fun hw => ?_⟩
  rw [← h.entries hw]
  have hdirs : ({ s with
      pds := Function.update s.pds d
        { s.pds d with mappingTasks := [], batchEnabled := false, idle := fun _ => rfl } } :
      Vm).dirs = s.dirs := dirs_eq_of_update (s := s) rfl rfl
  rw [pageEntry_eq_of hdirs rfl]

/-- **`pd_get_mapping`** returns the present entry of the page, if there is one. -/
lemma pdGetMapping_read {v : ℕ} (hv : v < 2 ^ 32) {Q : Except ℤ ℕ → Vm → Prop}
    {E : Fault → Vm → Prop}
    (hok : ∀ u, s.pageEntry d (v / pageSize) = some u → Q (.ok u) s)
    (herr : ∀ e, s.pageEntry d (v / pageSize) = none → Q (.error e) s) :
    wp (pdGetMapping d v) Q E s := by
  rw [pdGetMapping, wp_bind, wp_entry, pdeIndex_eq hv, wp_ite]
  constructor
  · intro hc
    rw [Bool.not_eq_true] at hc
    exact herr _ (pageEntry_of_absent hc)
  · intro hpre
    rw [not_not] at hpre
    rw [wp_bind, wp_pte, pteIndex_eq, wp_ite]
    constructor
    · intro hc
      refine herr _ ?_
      rw [Vm.pageEntry, ShrekOS.pageEntry]
      exact if_neg fun hboth => hc hboth.2
    · intro hv'
      rw [not_not] at hv'
      refine hok _ ?_
      rw [Vm.pageEntry, ShrekOS.pageEntry, if_pos ⟨hpre, hv'⟩]
      rfl

end ShrekOS
