/-
The kernel mappings of `kern/virtual_mem_mgmt/page_directory.c`, and what the operations of the
virtual memory manager do to them.

* `pdInitKernel`, `pdInit`: the direct map of the kernel, shared by all directories;
* `syscallNewPages`: the `new_pages` system call, which keeps its base out of the kernel;
* `KernelMapped`: the kernel pages of every directory are as `pdInitKernel` maps them;
* `KernelSpace`: **the invariant**: the page tables of the kernel are those of the first four
  slots of every directory and of no other;
* `kernelMapped_of_above`: **it holds in every run** in which no section begins below the user
  space and the calls that make page tables get their memory;
  `not_kernelMapped_of_sections`: one section in the kernel changes the kernel of all processes.
-/
import ShrekOS.Mem.IsolationRuns

namespace ShrekOS

open Kit Kit.Cmd Vm

/-! ### The kernel's own mappings -/

/-- `NUM_KERNEL_PTE`. -/
def numKernelPte : ℕ := 4096

/-- The flags of the kernel pages: present, writable, supervisor, global. -/
def kernelPteFlags : ℕ := 0x103

/-- The flags of the page tables of the kernel: present, writable, supervisor. -/
def kernelPdeFlags : ℕ := 3

/-- The loop of `pd_init_kernel` over the last `k` pages. -/
def directMap (temp : ℕ) : ℕ → VmM ℤ
  | 0 => pure 0
  | k + 1 => do
      let addr := pageSize * (numKernelPte - (k + 1))
      if (← pdCreateMapping temp addr addr kernelPteFlags kernelPdeFlags) < 0 then pure (-1) else
      directMap temp k

/-- `pd_init_kernel`, with the temporary directory `temp`; page `0` is left out. -/
def pdInitKernel (temp : ℕ) : VmM ℤ := directMap temp (numKernelPte - 1)

/-- The directory that `pd_init` makes from `kernel_pde`. -/
def freshDirectory (kernelPde : ℕ → ℕ) : PageDirectory where
  directory i := if i < numKernelPde then kernelPde i else 0
  numPages := 0
  pAddrList := []
  mappingTasks := []
  batchEnabled := false
  idle := idle_nil

/-- `pd_init`. -/
def pdInit (kernelPde : ℕ → ℕ) (d : ℕ) : VmM ℤ := do
  if !(← malloc) then pure (-1) else do
  if !(← malloc) then pure (-3) else do
  if !(← malloc) then pure (-4) else do
  setPd d (freshDirectory kernelPde)
  pure 0

/-- `syscall_new_pages_c_handler`, for the process of the directory. -/
def syscallNewPages (d : ℕ) (base : UInt32) (len : ℤ) : VmM ℤ := do
  if base.toNat < userMemStart then pure (-1) else do
  if len ≤ 0 ∨ len % pageSize ≠ 0 then pure (-1) else do
  if (← vmmNewUserPage d base (UInt32.ofNat (len / pageSize).toNat)) < 0 then pure (-2) else
  pure 0

/-- The kernel pages of every directory are as `pd_init_kernel` maps them: page `0` is absent,
every other one is mapped to itself, for the supervisor, writable. -/
structure KernelMapped (s : Vm) : Prop where
  absent : ∀ d, s.pageEntry d 0 = none
  direct : ∀ d w, 0 < w → w < numKernelPte →
    s.pageEntry d w = some (addFlags (pageSize * w) kernelPteFlags)
  tables : ∀ d i, i < numKernelPde → extractFlags (s.dirs d i) = kernelPdeFlags

/-! ### The direct map -/

/-- The first `m` pages of the directory `temp` are mapped to themselves, but for page `0`, and
nothing else. -/
structure DirectTo (temp m : ℕ) (s : Vm) : Prop where
  idle : (s.pds temp).batchEnabled = false
  slot : ∀ i, 1 < m → numEntries * i < m → entryPresent (s.dirs temp i) = true ∧
    extractFlags (s.dirs temp i) = kernelPdeFlags ∧ removeFlags (s.dirs temp i) ≠ 0 ∧
      s.live (removeFlags (s.dirs temp i)) = true
  empty : ∀ i, (m ≤ 1 ∨ m ≤ numEntries * i) → s.dirs temp i = 0
  unique : ∀ i j, 1 < m → numEntries * i < m → numEntries * j < m →
    removeFlags (s.dirs temp i) = removeFlags (s.dirs temp j) → i = j
  zero : 1 < m → s.pt (removeFlags (s.dirs temp 0)) 0 = 0
  entry : ∀ w, 0 < w → w < m → s.pt (removeFlags (s.dirs temp (w / numEntries))) (w % numEntries) =
    addFlags (pageSize * w) kernelPteFlags

/-- One more page in a page table that is there. -/
lemma DirectTo.page {temp m : ℕ} {s s' : Vm} (h : DirectTo temp m s) (hgo : 1 < m)
    (hin : m % numEntries ≠ 0) (hpds : s'.pds = s.pds) (hlive : s'.live = s.live)
    (hpt : s'.pt = Function.update s.pt (removeFlags (s.dirs temp (m / numEntries)))
      (Function.update (s.pt (removeFlags (s.dirs temp (m / numEntries)))) (m % numEntries)
        (addFlags (pageSize * m) kernelPteFlags))) : DirectTo temp (m + 1) s' := by
  have hdirs : s'.dirs = s.dirs := by
    funext d i
    rw [dirs, dirs, hpds]
  have hlt : ∀ i, numEntries * i < m + 1 → numEntries * i < m := by
    intro i hi
    rcases Nat.lt_succ_iff_lt_or_eq.mp hi with hi | hi
    · exact hi
    · rw [← hi, Nat.mul_mod_right] at hin
      exact absurd rfl hin
  have hslot : numEntries * (m / numEntries) < m := by
    have := Nat.div_add_mod m numEntries
    omega
  refine ⟨?_, ?_, ?_, ?_, ?_, ?_⟩
  · rw [hpds, h.idle]
  · intro i _ hi
    rw [hdirs, hlive]
    exact h.slot i hgo (hlt i hi)
  · intro i hi
    rw [hdirs]
    exact h.empty i (by omega)
  · intro i j _ hi hj
    rw [hdirs]
    exact h.unique i j hgo (hlt i hi) (hlt j hj)
  · intro _
    rw [hdirs, hpt]
    by_cases h0 : removeFlags (s.dirs temp 0) = removeFlags (s.dirs temp (m / numEntries))
    · rw [← h0, Function.update_self, Function.update_of_ne (Ne.symm hin)]
      exact h.zero hgo
    · rw [Function.update_of_ne h0]
      exact h.zero hgo
  · intro w h0 hw
    rw [hdirs, hpt]
    by_cases hwm : w = m
    · rw [hwm, Function.update_self, Function.update_self]
    have hwlt : w < m := by omega
    by_cases htab : removeFlags (s.dirs temp (w / numEntries)) =
        removeFlags (s.dirs temp (m / numEntries))
    · -- in one page table the pages have different entries
      have hslot' : numEntries * (w / numEntries) < m := by
        have := Nat.mul_div_le w numEntries
        omega
      have hdiv := h.unique _ _ hgo hslot' hslot htab
      have hne : w % numEntries ≠ m % numEntries := by
        intro hmod
        exact hwm (by rw [← Nat.div_add_mod w numEntries, hdiv, hmod, Nat.div_add_mod])
      rw [htab, Function.update_self, Function.update_of_ne hne, ← htab]
      exact h.entry w h0 hwlt
    · rw [Function.update_of_ne htab]
      exact h.entry w h0 hwlt

/-- One more page in a new page table. -/
lemma DirectTo.table {temp m a : ℕ} {s s' : Vm} (h : DirectTo temp m s)
    (hnew : m = 1 ∨ 1 < m ∧ m % numEntries = 0) (hal : a % pageSize = 0) (hpos : 0 < a)
    (hfree : s.live a = false) (hidle : (s'.pds temp).batchEnabled = false)
    (hdirs : ∀ i, s'.dirs temp i =
      if i = m / numEntries then addFlags a kernelPdeFlags else s.dirs temp i)
    (hlive : s'.live = Function.update s.live a true)
    (hpt : s'.pt = Function.update s.pt a (Function.update (fun _ => 0) (m % numEntries)
      (addFlags (pageSize * m) kernelPteFlags))) : DirectTo temp (m + 1) s' := by
  have hrem : removeFlags (addFlags a kernelPdeFlags) = a := removeFlags_addFlags hal (by decide)
  have hflags : extractFlags (addFlags a kernelPdeFlags) = kernelPdeFlags := by
    rw [addFlags_eq_add hal (by decide), extractFlags]
    simp only [kernelPdeFlags, pageSize] at *
    omega
  have hpre : entryPresent (addFlags a kernelPdeFlags) = true := by
    rw [entryPresent_addFlags hal]
    rfl
  -- the slots below were there before, with tables in use
  have hold : ∀ i, numEntries * i < m + 1 → i ≠ m / numEntries → 1 < m ∧ numEntries * i < m := by
    intro i hi hne
    rcases hnew with rfl | ⟨hgo, hmod⟩
    · simp only [numEntries] at *
      omega
    · refine ⟨hgo, ?_⟩
      rcases Nat.lt_succ_iff_lt_or_eq.mp hi with hi | hi
      · exact hi
      · rw [← hi, Nat.mul_div_cancel_left _ (by decide)] at hne
        exact absurd rfl hne
  have hne : ∀ i, 1 < m → numEntries * i < m → removeFlags (s.dirs temp i) ≠ a := by
    rintro i hgo hi rfl
    rw [(h.slot i hgo hi).2.2.2] at hfree
    cases hfree
  refine ⟨hidle, fun i _ hi => ?_, fun i hi => ?_, fun i j _ hi hj => ?_, fun _ => ?_, ?_⟩
  · rw [hdirs, hlive]
    split_ifs with him
    · rw [hrem, Function.update_self]
      exact ⟨hpre, hflags, hpos.ne', rfl⟩
    · obtain ⟨hgo, hi'⟩ := hold i hi him
      rw [Function.update_of_ne (hne i hgo hi')]
      exact h.slot i hgo hi'
  · rw [hdirs, if_neg ?_]
    · exact h.empty i (by omega)
    · rintro rfl
      have := Nat.mul_div_le m numEntries
      omega
  · rw [hdirs, hdirs]
    split_ifs with him hjm hjm
    · exact fun _ => him.trans hjm.symm
    · obtain ⟨hgo, hj'⟩ := hold j hj hjm
      rw [hrem]
      exact fun heq => absurd heq.symm (hne j hgo hj')
    · obtain ⟨hgo, hi'⟩ := hold i hi him
      rw [hrem]
      exact fun heq => absurd heq (hne i hgo hi')
    · obtain ⟨hgo, hi'⟩ := hold i hi him
      exact h.unique i j hgo hi' (hold j hj hjm).2
  · rw [hdirs, hpt]
    split_ifs with h0
    · rw [hrem, Function.update_self, Function.update_of_ne ?_]
      rcases hnew with rfl | ⟨hgo, hmod⟩
      · decide
      · have := Nat.div_add_mod m numEntries
        rw [← h0, hmod] at this
        omega
    · obtain ⟨hgo, hi'⟩ := hold 0 (by omega) h0
      rw [Function.update_of_ne (hne 0 hgo hi')]
      exact h.zero hgo
  · intro w h0 hw
    rw [hdirs, hpt]
    by_cases hwm : w = m
    · rw [hwm, if_pos rfl, hrem, Function.update_self, Function.update_self]
    have hslot : numEntries * (w / numEntries) < m + 1 := by
      have := Nat.mul_div_le w numEntries
      omega
    have hdiv : w / numEntries ≠ m / numEntries := by
      intro hdiv
      rcases hnew with rfl | ⟨-, hmod⟩
      · omega
      · have h₁ := Nat.div_add_mod w numEntries
        have h₂ := Nat.div_add_mod m numEntries
        rw [hdiv] at h₁
        omega
    obtain ⟨hgo, hslot'⟩ := hold _ hslot hdiv
    rw [if_neg hdiv, Function.update_of_ne (hne _ hgo hslot')]
    exact h.entry w h0 (by omega)

/-- One more page. -/
lemma pdCreateMapping_direct {temp m : ℕ} {s : Vm} (h : DirectTo temp m s) (h1 : 1 ≤ m)
    (hm : m < numKernelPte) :
    wlp (pdCreateMapping temp (pageSize * m) (pageSize * m) kernelPteFlags kernelPdeFlags)
      (fun r s' => 0 ≤ r → DirectTo temp (m + 1) s') s := by
  have hal : isPageAligned (pageSize * m) = true := by simp [isPageAligned]
  have hpde : pdeIndex (pageSize * m) = m / numEntries := by
    simp only [pdeIndex, pageSize, numEntries, numKernelPte] at *
    omega
  have hpte : pteIndex (pageSize * m) = m % numEntries := by
    simp only [pteIndex, pageSize, numEntries]
    omega
  rw [pdCreateMapping, wlp, wp_ite]
  refine ⟨fun hno => by simp [hal] at hno, fun _ => ?_⟩
  rw [hpde, wp_bind, createTable, wp_bind, wp_entry, wp_ite]
  by_cases hpage : 1 < m ∧ m % numEntries ≠ 0
  · -- the page table is there
    have hslot : numEntries * (m / numEntries) < m := by
      have := Nat.div_add_mod m numEntries
      omega
    have hpre := (h.slot _ hpage.1 hslot).1
    refine ⟨fun _ => ?_, fun hno => absurd hpre hno⟩
    rw [wp_pure]
    dsimp only
    rw [recordMapping, wp_bind, wp_gets, wp_ite]
    refine ⟨fun hb => by simp [h.idle] at hb, fun _ => ?_⟩
    rw [wp_bind, wp_setPte, hpte]
    exact fun _ => h.page hpage.1 hpage.2 rfl rfl rfl
  -- the first page of a slot: it gets a page table
  · have hnew : m = 1 ∨ 1 < m ∧ m % numEntries = 0 := by
      by_cases hmod : m % numEntries = 0
      · rcases Nat.lt_or_eq_of_le h1 with hlt | rfl
        · exact .inr ⟨hlt, hmod⟩
        · exact .inl rfl
      · exact .inl (by omega)
    have hempty : (s.pds temp).directory (m / numEntries) = 0 := by
      refine h.empty _ ?_
      rcases hnew with rfl | ⟨-, hmod⟩
      · exact .inl le_rfl
      · have := Nat.div_add_mod m numEntries
        exact .inr (by omega)
    refine ⟨fun hpre => by simp [hempty] at hpre, fun _ => ?_⟩
    rw [wp_bind, wp_memalign]
    -- the answers of the heap: none is left, a failure, or a page
    rcases s.heap with _ | ⟨_ | a, rs⟩
    · trivial
    · exact fun hneg => absurd hneg (by decide)
    dsimp only
    split_ifs with hok
    · rw [wp_bind, wp_clearTable, wp_bind, wp_setEntry, wp_pure]
      dsimp only
      rw [recordMapping, wp_bind, wp_gets, wp_ite]
      refine ⟨fun hb => by simp [h.idle] at hb, fun _ => ?_⟩
      rw [wp_bind, wp_setPte, hpte, removeFlags_addFlags hok.1 (by decide)]
      refine fun _ => h.table hnew hok.1 hok.2.1 hok.2.2.2 ?_ ?_ rfl ?_
      · simp [h.idle]
      · intro i
        rw [dirs_of_update (s := s) rfl, if_pos rfl]
        by_cases hi : i = m / numEntries
        · simp [hi]
        · simp [hi, dirs]
      · simp

/-- **`pd_init_kernel`**: when it succeeds, the pages of the kernel are mapped to themselves. -/
theorem pdInitKernel_direct {temp : ℕ} {s : Vm} (hidle : (s.pds temp).batchEnabled = false)
    (hempty : ∀ i, s.dirs temp i = 0) :
    wlp (pdInitKernel temp) (fun r s' => 0 ≤ r → DirectTo temp numKernelPte s') s := by
  have hloop : ∀ k, k ≤ numKernelPte - 1 → ∀ s, DirectTo temp (numKernelPte - k) s →
      wlp (directMap temp k) (fun r s' => 0 ≤ r → DirectTo temp numKernelPte s') s := by
    intro k
    induction k with
    | zero => exact fun _ _ h _ => h
    | succ k ih =>
        intro hk s h
        have hsucc : numKernelPte - (k + 1) + 1 = numKernelPte - k := by omega
        rw [directMap, wlp, wp_bind]
        refine wp_imp (pdCreateMapping_direct h (by omega) (by omega)) fun r s₁ h₁ => ?_
        rw [wp_ite]
        refine ⟨fun _ hneg => absurd hneg (by decide), fun hr => ?_⟩
        exact ih (by omega) s₁ (hsucc ▸ h₁ (not_lt.mp hr))
  refine hloop _ le_rfl s ?_
  rw [show numKernelPte - (numKernelPte - 1) = 1 from rfl]
  exact ⟨hidle, fun i h => absurd h (lt_irrefl 1), fun i _ => hempty i,
    fun i j h => absurd h (lt_irrefl 1), fun h => absurd h (lt_irrefl 1), fun w h0 h1 => by omega⟩

/-- Directories that `pd_init` makes after `pd_init_kernel` have the kernel mapped. -/
lemma DirectTo.mapped {temp : ℕ} {s s' : Vm} (h : DirectTo temp numKernelPte s)
    (hpds : s'.pds = fun _ => freshDirectory (s.dirs temp)) (hpt : s'.pt = s.pt) :
    KernelMapped s' := by
  have hdirs : ∀ d i, i < numKernelPde → s'.dirs d i = s.dirs temp i := by
    intro d i hi
    rw [dirs, hpds]
    exact if_pos hi
  have hslot : ∀ w, w < numKernelPte → w / numEntries < numKernelPde := by
    intro w hw
    simp only [numKernelPte, numEntries, numKernelPde] at *
    omega
  have hpre : ∀ i, i < numKernelPde → numEntries * i < numKernelPte := by
    intro i hi
    simp only [numKernelPte, numEntries, numKernelPde] at *
    omega
  refine ⟨fun d => ?_, fun d w h0 hw => ?_, fun d i hi => ?_⟩
  · rw [Option.eq_none_iff_forall_ne_some]
    intro v hv
    obtain ⟨-, hp, rfl⟩ := pageEntry_eq_some.mp hv
    rw [hdirs d _ (by decide), hpt] at hp
    change entryPresent (s.pt (removeFlags (s.dirs temp 0)) 0) = true at hp
    rw [h.zero (by decide)] at hp
    simp at hp
  · refine pageEntry_eq_some.mpr ⟨?_, ?_, ?_⟩
    · rw [hdirs d _ (hslot w hw)]
      exact (h.slot _ (by decide) (hpre _ (hslot w hw))).1
    · rw [entryPresent_addFlags (Nat.mul_mod_right _ _)]
      rfl
    · rw [hdirs d _ (hslot w hw), hpt]
      exact h.entry w h0 hw
  · rw [hdirs d i hi]
    exact (h.slot i (by decide) (hpre i hi)).2.1

/-! ### Keeping out of the kernel -/

/-- The kernel slots of all directories hold `kd`, and lead to page tables with the contents
`kt` that are in use and that no other slot leads to. -/
structure KernelSpace (kd : ℕ → ℕ) (kt : ℕ → ℕ → ℕ) (s : Vm) : Prop where
  dir : ∀ {d i}, i < numKernelPde → s.dirs d i = kd i
  present : ∀ {i}, i < numKernelPde → entryPresent (kd i) = true
  nonnull : ∀ {i}, i < numKernelPde → removeFlags (kd i) ≠ 0
  table : ∀ {i}, i < numKernelPde → s.pt (removeFlags (kd i)) = kt i
  live : ∀ {i}, i < numKernelPde → s.live (removeFlags (kd i)) = true
  apart : ∀ {d i j}, numKernelPde ≤ i → i < numEntries → j < numKernelPde →
    removeFlags (s.dirs d i) ≠ removeFlags (kd j)
  tasks : ∀ {d t}, t ∈ (s.pds d).mappingTasks → numKernelPde ≤ pdeIndex t.vAddr ∧
    ∀ {a j}, t.resource = some a → j < numKernelPde → a ≠ removeFlags (kd j)

namespace KernelSpace

variable {kd : ℕ → ℕ} {kt : ℕ → ℕ → ℕ} {s s' : Vm}

/-- The kernel mappings are determined by the slots and the tables. -/
lemma mapped {s₀ : Vm} (h₀ : KernelSpace kd kt s₀) (hm : KernelMapped s₀)
    (h : KernelSpace kd kt s) : KernelMapped s := by
  have hentry : ∀ d w, w < numKernelPte → s.pageEntry d w = s₀.pageEntry d w := by
    intro d w hw
    have hi : w / numEntries < numKernelPde := by
      simp only [numKernelPte, numEntries, numKernelPde] at *
      omega
    refine pageEntry_congr ?_ fun _ => ?_
    · rw [h.dir hi, h₀.dir hi]
    · rw [h₀.dir hi, h.table hi, h₀.table hi]
  refine ⟨fun d => ?_, fun d w h0 hw => ?_, fun d i hi => ?_⟩
  · rw [hentry d 0 (by decide), hm.absent]
  · rw [hentry d w hw, hm.direct d w h0 hw]
  · rw [h.dir hi, ← h₀.dir (d := d) hi, hm.tables d i hi]

/-- The heap and the frames do not matter. -/
lemma of_eq (h : KernelSpace kd kt s) (hd : s'.pds = s.pds) (hp : s'.pt = s.pt)
    (hl : s'.live = s.live) : KernelSpace kd kt s' := by
  have hdirs : s'.dirs = s.dirs := by
    funext d i
    rw [dirs, dirs, hd]
  refine ⟨?_, h.present, h.nonnull, ?_, ?_, ?_, ?_⟩
  · rw [hdirs]
    exact h.dir
  · rw [hp]
    exact h.table
  · rw [hl]
    exact h.live
  · rw [hdirs]
    exact h.apart
  · rw [hd]
    exact h.tasks

/-- The address is not that of a page table of the kernel. -/
def Foreign (kd : ℕ → ℕ) (a : ℕ) : Prop := ∀ i < numKernelPde, a ≠ removeFlags (kd i)

lemma foreign_entry (h : KernelSpace kd kt s) {d i : ℕ} (h4 : numKernelPde ≤ i)
    (hi : i < numEntries) : Foreign kd (removeFlags (s.dirs d i)) :=
  fun _ hj => h.apart h4 hi hj

/-- A page table that was not in use is not one of the kernel. -/
lemma foreign_of_free (h : KernelSpace kd kt s) {a : ℕ} (ha : s.live a = false) : Foreign kd a := by
  rintro i hi rfl
  rw [h.live hi] at ha
  cases ha

/-- A page table outside the kernel changes. -/
lemma setTable (h : KernelSpace kd kt s) {a : ℕ} (ha : Foreign kd a) (f : ℕ → ℕ) :
    KernelSpace kd kt { s with pt := Function.update s.pt a f } :=
  { h with table := fun hi => (Function.update_of_ne (Ne.symm (ha _ hi)) _ _).trans (h.table hi) }

/-- A page table outside the kernel is taken or freed. -/
lemma setLive (h : KernelSpace kd kt s) {a : ℕ} (ha : Foreign kd a) (b : Bool) :
    KernelSpace kd kt { s with live := Function.update s.live a b } :=
  { h with live := fun hi => (Function.update_of_ne (Ne.symm (ha _ hi)) _ _).trans (h.live hi) }

/-- A directory is replaced by one with the same kernel slots. -/
lemma replace (h : KernelSpace kd kt s) {d : ℕ} {pd : PageDirectory}
    (hdir : ∀ i < numKernelPde, pd.directory i = kd i)
    (hslots : ∀ i, numKernelPde ≤ i → i < numEntries → Foreign kd (removeFlags (pd.directory i)))
    (htasks : ∀ t ∈ pd.mappingTasks, numKernelPde ≤ pdeIndex t.vAddr ∧
      ∀ a, t.resource = some a → Foreign kd a) :
    KernelSpace kd kt { s with pds := Function.update s.pds d pd } := by
  have hdirs : ∀ e i, ({ s with pds := Function.update s.pds d pd } : Vm).dirs e i =
      if e = d then pd.directory i else s.dirs e i := dirs_of_update rfl
  refine ⟨fun hi => ?_, h.present, h.nonnull, h.table, h.live, fun h4 hi hj => ?_, ?_⟩
  · rw [hdirs]
    split_ifs
    · exact hdir _ hi
    · exact h.dir hi
  · rw [hdirs]
    split_ifs
    · exact hslots _ h4 hi _ hj
    · exact h.apart h4 hi hj
  · intro e t ht
    change t ∈ (Function.update s.pds d pd e).mappingTasks at ht
    by_cases he : e = d
    · subst he
      rw [Function.update_self] at ht
      exact ⟨(htasks t ht).1, fun ha hj => (htasks t ht).2 _ ha _ hj⟩
    · rw [Function.update_of_ne he] at ht
      exact h.tasks ht

/-- A directory is replaced by one with the same entries and some of the tasks. -/
lemma replaceSame (h : KernelSpace kd kt s) {d : ℕ} {pd : PageDirectory}
    (hdir : pd.directory = (s.pds d).directory)
    (htasks : ∀ t ∈ pd.mappingTasks, t ∈ (s.pds d).mappingTasks) :
    KernelSpace kd kt { s with pds := Function.update s.pds d pd } := by
  refine h.replace (fun i hi => ?_) (fun i h4 hi => ?_) fun t ht => ?_
  · rw [hdir]
    exact h.dir hi
  · rw [hdir]
    exact h.foreign_entry h4 hi
  · exact ⟨(h.tasks (htasks t ht)).1, fun a ha j hj => (h.tasks (htasks t ht)).2 ha hj⟩

end KernelSpace

/-- A command that stays out of the kernel. -/
abbrev StaysAbove (kd : ℕ → ℕ) (kt : ℕ → ℕ → ℕ) {α : Type} (c : VmM α) : Prop :=
  Preserves (KernelSpace kd kt) c

namespace StaysAbove

open KernelSpace

variable {kd : ℕ → ℕ} {kt : ℕ → ℕ → ℕ}

lemma malloc : StaysAbove kd kt Vm.malloc := by
  intro s h
  rw [wlp, wp_malloc]
  cases s.heap with
  | nil => trivial
  | cons r rs => exact h.of_eq rfl rfl rfl

/-- A new page table is none of the kernel. -/
lemma memalign {s : Vm} (h : KernelSpace kd kt s) : wlp Vm.memalign (fun r s' =>
    KernelSpace kd kt s' ∧ ∀ a, r = some a → a % pageSize = 0 ∧ Foreign kd a) s := by
  rw [wlp, wp_memalign]
  rcases s.heap with _ | ⟨_ | a, rs⟩
  · trivial
  · exact ⟨h.of_eq rfl rfl rfl, by simp⟩
  · dsimp only
    split_ifs with hok
    · have hfor := h.foreign_of_free hok.2.2.2
      refine ⟨(h.setLive hfor true).of_eq rfl rfl rfl, ?_⟩
      rintro _ ⟨⟩
      exact ⟨hok.1, hfor⟩

lemma free {t : Option ℕ} (ht : ∀ a, t = some a → Foreign kd a) : StaysAbove kd kt (Vm.free t) := by
  cases t with
  | none => exact .pure ()
  | some a => exact .modify fun s h => h.setLive (ht a rfl) false

lemma setPte {t : ℕ} (ht : Foreign kd t) (j v : ℕ) : StaysAbove kd kt (Vm.setPte t j v) :=
  .modify fun _ h => h.setTable ht _

lemma clearTable {t : ℕ} (ht : Foreign kd t) : StaysAbove kd kt (Vm.clearTable t) :=
  .modify fun _ h => h.setTable ht _

/-- A user slot gets an entry. -/
lemma setEntry {d i v : ℕ} (h4 : numKernelPde ≤ i) (hv : Foreign kd (removeFlags v)) :
    StaysAbove kd kt (Vm.setEntry d i v) := by
  intro s h
  rw [wlp, wp_setEntry]
  refine h.replace (fun j hj => ?_) (fun j h4 hj => ?_) fun t ht => ?_
  · change Function.update (s.pds d).directory i v j = kd j
    rw [Function.update_of_ne (by omega)]
    exact h.dir hj
  · change Foreign kd (removeFlags (Function.update (s.pds d).directory i v j))
    by_cases hji : j = i
    · rw [hji, Function.update_self]
      exact hv
    · rw [Function.update_of_ne hji]
      exact h.foreign_entry h4 hj
  · exact ⟨(h.tasks ht).1, fun a ha j hj => (h.tasks ht).2 ha hj⟩

/-- A command on the frame manager. -/
lemma liftFm {α : Type} (c : FmM α) : StaysAbove kd kt (Vm.liftFm c) := by
  intro s h
  rw [wlp, wp_liftFm]
  exact wp_any c (fun _ _ => h.of_eq rfl rfl rfl) fun _ _ => trivial

lemma pdGetMapping (d v : ℕ) : StaysAbove kd kt (pdGetMapping d v) :=
  .bind (.gets _) fun _ => .ite (.pure _) (.bind (.gets _) fun _ => .ite (.pure _) (.pure _))

lemma pdBeginMapping (d : ℕ) : StaysAbove kd kt (pdBeginMapping d) := by
  intro s h
  rw [ShrekOS.pdBeginMapping, wlp, wp_bind, wp_gets, wp_ite]
  refine ⟨fun _ => h, fun _ => ?_⟩
  rw [wp_bind, wp_setPd]
  exact h.replaceSame rfl fun _ ht => ht

lemma pdAbortMapping (d : ℕ) : StaysAbove kd kt (pdAbortMapping d) := by
  have hfree : ∀ tasks : List MappingTask, (∀ t ∈ tasks, ∀ a, t.resource = some a → Foreign kd a) →
      StaysAbove kd kt (freeResources tasks) := by
    intro tasks
    induction tasks with
    | nil => exact fun _ => .pure ()
    | cons t tasks ih =>
        exact fun ht => .bind (free (ht t (.head _))) fun _ => ih fun t' ht' => ht t' (.tail _ ht')
  intro s h
  rw [ShrekOS.pdAbortMapping, wlp, wp_bind, wp_gets, wp_bind]
  refine wp_imp (hfree _ (fun t ht a ha j hj => (h.tasks ht).2 ha hj) s h) fun _ s₁ h₁ => ?_
  rw [wp_bind, wp_gets, wp_setPd]
  exact h₁.replaceSame rfl (by simp)

lemma pdCommitMapping (d : ℕ) : StaysAbove kd kt (pdCommitMapping d) := by
  have hcommit : ∀ tasks : List MappingTask, (∀ t ∈ tasks, numKernelPde ≤ pdeIndex t.vAddr) →
      StaysAbove kd kt (commitTasks d tasks) := by
    intro tasks
    induction tasks with
    | nil => exact fun _ => .pure ()
    | cons t tasks ih =>
        intro ht s h
        rw [commitTasks, wlp, wp_bind, wp_entry, wp_bind]
        have hfor := h.foreign_entry (d := d) (ht t (.head _)) (pdeIndex_lt t.vAddr)
        refine wp_imp (setPte hfor _ _ s h) fun _ s₁ h₁ => ?_
        exact ih (fun t' ht' => ht t' (.tail _ ht')) s₁ h₁
  intro s h
  rw [ShrekOS.pdCommitMapping, wlp, wp_bind, wp_gets, wp_bind]
  refine wp_imp (hcommit _ (fun t ht => (h.tasks ht).1) s h) fun _ s₁ h₁ => ?_
  rw [wp_bind, wp_gets, wp_setPd]
  exact h₁.replaceSame rfl (by simp)

/-- The first part of `pd_create_mapping` in a user slot, with flags that are flags. -/
lemma createTable {s : Vm} (h : KernelSpace kd kt s) {d i flags : ℕ} (h4 : numKernelPde ≤ i)
    (hi : i < numEntries) (hf : flags < 2 ^ 12) :
    wlp (createTable d i flags) (fun r s' => KernelSpace kd kt s' ∧
      ∀ pde t, r = some (pde, t) →
        Foreign kd (removeFlags pde) ∧ ∀ a, t = some a → Foreign kd a) s := by
  rw [ShrekOS.createTable, wlp, wp_bind, wp_entry, wp_ite]
  refine ⟨fun _ => ⟨h, ?_⟩, fun _ => ?_⟩
  · rintro pde t ⟨⟩
    exact ⟨h.foreign_entry h4 hi, fun _ ha => by cases ha⟩
  rw [wp_bind]
  refine wp_imp (memalign h) fun r s₁ hpost => ?_
  obtain ⟨h₁, hr⟩ := hpost
  cases r with
  | none => exact ⟨h₁, fun _ _ ha => by cases ha⟩
  | some a =>
      obtain ⟨hal, hfor⟩ := hr a rfl
      have hrem := removeFlags_addFlags hal hf
      rw [wp_bind]
      refine wp_imp (clearTable hfor s₁ h₁) fun _ s₂ h₂ => ?_
      rw [wp_bind]
      refine wp_imp (setEntry (v := addFlags a flags) h4 (by rwa [hrem]) s₂ h₂) fun _ s₃ h₃ => ?_
      refine ⟨h₃, ?_⟩
      rintro pde t ⟨⟩
      rw [hrem]
      exact ⟨hfor, by rintro _ ⟨⟩; exact hfor⟩

/-- The last part of `pd_create_mapping` and of `pd_remove_mapping`. -/
lemma recordMapping {d vAddr table v : ℕ} {r : Option ℕ} (hv : numKernelPde ≤ pdeIndex vAddr)
    (ht : Foreign kd table) (hr : ∀ a, r = some a → Foreign kd a) :
    StaysAbove kd kt (recordMapping d vAddr table v r) := by
  refine .bind (.gets _) fun _ => .ite (.bind malloc fun _ => .ite (.pure _)
    (.bind malloc fun _ => .ite (.bind (free hr) fun _ => .pure _) ?_))
    (.bind (setPte ht _ _) fun _ => .pure _)
  intro s h
  rw [wlp, wp_bind, wp_gets, wp_bind, wp_setPd]
  refine h.replace (fun i hi => ?_) (fun i h4 hi => ?_) fun t ht => ?_
  · rw [PageDirectory.addTask_directory]
    exact h.dir hi
  · rw [PageDirectory.addTask_directory]
    exact h.foreign_entry h4 hi
  · rw [PageDirectory.addTask] at ht
    split_ifs at ht
    · rw [List.mem_append, List.mem_singleton] at ht
      rcases ht with ht | rfl
      · exact ⟨(h.tasks ht).1, fun a ha j hj => (h.tasks ht).2 ha hj⟩
      · exact ⟨hv, hr⟩
    · exact ⟨(h.tasks ht).1, fun a ha j hj => (h.tasks ht).2 ha hj⟩

lemma pdCreateMapping {d vAddr pAddr f g : ℕ} (hv : numKernelPde ≤ pdeIndex vAddr)
    (hg : g < 2 ^ 12) : StaysAbove kd kt (pdCreateMapping d vAddr pAddr f g) := by
  refine .ite (.pure _) fun s h => ?_
  rw [wlp, wp_bind]
  refine wp_imp (createTable h hv (pdeIndex_lt _) hg) fun r s₁ hpost => ?_
  obtain ⟨h₁, hr⟩ := hpost
  rcases r with _ | ⟨pde, t⟩
  · exact h₁
  · exact recordMapping hv (hr pde t rfl).1 (hr pde t rfl).2 s₁ h₁

lemma pdRemoveMapping {d vAddr : ℕ} (hv : numKernelPde ≤ pdeIndex vAddr) :
    StaysAbove kd kt (pdRemoveMapping d vAddr) := by
  refine .ite (.pure _) fun s h => ?_
  rw [wlp, wp_bind, wp_entry]
  have hfor := h.foreign_entry (d := d) hv (pdeIndex_lt vAddr)
  exact Preserves.ite (.pure _) (.bind (.gets _) fun _ =>
    .ite (.pure _) (recordMapping hv hfor (by simp))) s h

lemma pdAllocFrame (d pAddr n : ℕ) : StaysAbove kd kt (pdAllocFrame d pAddr n) := by
  intro s h
  rw [ShrekOS.pdAllocFrame, wlp, wp_bind, wp_gets, wp_bind, wp_setPd]
  refine (Preserves.bind malloc fun _ => .ite (.pure _) (.bind malloc fun _ => .ite (.pure _) ?_))
    _ (h.replaceSame rfl fun _ ht => ht)
  intro s h
  rw [wlp, wp_bind, wp_gets, wp_bind, wp_setPd]
  exact h.replaceSame rfl fun _ ht => ht

lemma pdDeallocFrame (d pAddr : ℕ) : StaysAbove kd kt (pdDeallocFrame d pAddr) := by
  intro s h
  rw [ShrekOS.pdDeallocFrame, wlp, wp_bind, wp_gets]
  cases (s.pds d).pAddrList.find? fun m => m.pAddr = pAddr with
  | none => exact h
  | some m =>
      dsimp only
      rw [wp_bind, wp_setPd]
      exact h.replaceSame rfl fun _ ht => ht

lemma undoFrame (d pAddr : ℕ) : StaysAbove kd kt (undoFrame d pAddr) :=
  .bind (liftFm _) fun _ => .bind (pdDeallocFrame _ _) fun _ => .pure _

lemma withFrame {d n : ℕ} {c₁ c₂ : ℤ} {use : ℕ → VmM ℤ} (h : ∀ a, StaysAbove kd kt (use a)) :
    StaysAbove kd kt (withFrame d n c₁ c₂ use) := by
  refine .bind (liftFm _) fun r => ?_
  cases r with
  | error _ => exact .pure _
  | ok a =>
      exact .bind (pdAllocFrame _ _ _) fun _ => .ite (.bind (liftFm _) fun _ => .pure _) (h a)

/-- The pages of a mapping lie in the user space. -/
lemma pdeIndex_page {v : UInt32} {n i : ℕ} (hv : userMemStart ≤ v.toNat)
    (hn : v.toNat + pageSize * n ≤ 2 ^ 32) (hi : i < n) :
    numKernelPde ≤ pdeIndex (v + UInt32.ofNat (pageSize * i)).toNat := by
  rw [toNat_add_page, pdeIndex]
  simp only [pageSize, userMemStart, numKernelPde] at *
  omega

lemma mapPages {d : ℕ} {secs : List MemSection} (hsecs : secs ≠ [])
    (hflags : ∀ ms ∈ secs, ms.pdeF.toNat < 2 ^ 12) {v : UInt32} (hal : v.toNat % pageSize = 0)
    {pAddr n : ℕ} (hv : userMemStart ≤ v.toNat) (hn : v.toNat + pageSize * n ≤ 2 ^ 32) :
    ∀ k ≤ n, StaysAbove kd kt (mapPages d secs v pAddr n k) := by
  intro k
  induction k with
  | zero => exact fun _ => .pure _
  | succ k ih =>
      intro hk
      have hva : (v + UInt32.ofNat (pageSize * (n - (k + 1)))).toNat % pageSize = 0 := by
        rw [toNat_add_page]
        simp only [pageSize] at *
        omega
      obtain ⟨-, hmem⟩ := boundingSection_page hsecs hva
      have hpde := pdeIndex_page hv hn (show n - (k + 1) < n by omega)
      rw [ShrekOS.mapPages]
      rcases hb : msGetBoundingSection secs (v + UInt32.ofNat (pageSize * (n - (k + 1))))
        (v + UInt32.ofNat (pageSize * (n - (k + 1))) + 4095) with ⟨code, ms⟩
      rw [hb] at hmem
      refine .ite (.pure _) ?_
      cases ms with
      | none =>
          exact .bind (pdCreateMapping hpde (by decide)) fun _ => .ite (.pure _) (ih (by omega))
      | some ms =>
          exact .bind (pdCreateMapping hpde (hflags ms (hmem ms rfl))) fun _ =>
            .ite (.pure _) (ih (by omega))

/-- The pages between the bounds do not run over the end of memory. -/
lemma pages_le {low high : UInt32} (h : low ≤ high) :
    (pageAlignDown low).toNat +
      pageSize * ((pageAlignUp high - 1 - pageAlignDown low + 1) / 4096).toNat ≤ 2 ^ 32 := by
  have h4096 : (4096 : UInt32).toNat = 4096 := rfl
  have h1 : (1 : UInt32).toNat = 1 := rfl
  have hlow := low.toNat_lt
  have hhigh := high.toNat_lt
  rw [UInt32.le_iff_toNat_le] at h
  simp only [pageAlignUp, pageAlignDown, UInt32.toNat_mul, UInt32.toNat_div, UInt32.toNat_add,
    UInt32.toNat_sub, h4096, h1, pageSize] at *
  omega

lemma pageAlignDown_le {low : UInt32} (h : userMemStart ≤ low.toNat) :
    userMemStart ≤ (pageAlignDown low).toNat := by
  have h4096 : (4096 : UInt32).toNat = 4096 := rfl
  rw [pageAlignDown, UInt32.toNat_mul, UInt32.toNat_div, h4096]
  have := low.toNat_lt
  simp only [userMemStart] at *
  omega

/-- `vmm_map_sections` in the user space. -/
lemma vmmMapSections {d : ℕ} {secs : List MemSection} {garbage : UInt32 × UInt32}
    (hflags : ∀ ms ∈ secs, ms.pdeF.toNat < 2 ^ 12) (huser : InUserSpace secs garbage) :
    StaysAbove kd kt (vmmMapSections d secs garbage) := by
  unfold InUserSpace at huser
  rw [ShrekOS.vmmMapSections]
  generalize (msGetBoundingAddr secs).getD garbage = bounds at huser ⊢
  obtain ⟨low, high⟩ := bounds
  obtain ⟨hlow, hle⟩ := huser
  by_cases hsecs : secs = []
  · rw [if_pos hsecs]
    exact .pure _
  rw [if_neg hsecs]
  dsimp only
  split_ifs
  · exact .pure _
  refine withFrame fun pAddr => .bind (pdBeginMapping d) fun _ => .ite
    (.bind (undoFrame _ _) fun _ => .pure _) ?_
  refine .bind (mapPages hsecs hflags (pageAlignDown_mod low) (pageAlignDown_le hlow)
    (pages_le hle) _ le_rfl) fun _ => .ite ?_ ?_
  · exact .bind (pdAbortMapping d) fun _ => .bind (undoFrame _ _) fun _ => .pure _
  · exact .bind (pdCommitMapping d) fun _ => .pure _

lemma anyMapped (d : ℕ) : ∀ k v, StaysAbove kd kt (anyMapped d k v)
  | 0, _ => .pure _
  | k + 1, v => by
      refine .bind (pdGetMapping d _) fun r => ?_
      cases r with
      | ok _ => exact .pure _
      | error _ => exact anyMapped d k _

lemma mapUserPages {d : ℕ} {base : UInt32} {pAddr n : ℕ} (hv : userMemStart ≤ base.toNat)
    (hn : base.toNat + pageSize * n ≤ 2 ^ 32) :
    ∀ k ≤ n, StaysAbove kd kt (mapUserPages d base pAddr n k) := by
  intro k
  induction k with
  | zero => exact fun _ => .pure _
  | succ k ih =>
      intro hk
      have hpde := pdeIndex_page hv hn (show n - (k + 1) < n by omega)
      rw [ShrekOS.mapUserPages]
      exact .bind (pdCreateMapping hpde (by decide)) fun _ => .ite (.pure _) (ih (by omega))

/-- The overflow check of `vmm_new_user_page`. -/
lemma newPages_le {base numPages : UInt32} (h0 : ¬ (numPages = 0 ∨ numPages > 0xFFFF))
    (h : ¬ base + numPages * 4096 - 1 < base) :
    base.toNat + pageSize * numPages.toNat ≤ 2 ^ 32 := by
  have h4096 : (4096 : UInt32).toNat = 4096 := rfl
  have h1 : (1 : UInt32).toNat = 1 := rfl
  have hff : (0xFFFF : UInt32).toNat = 0xFFFF := rfl
  have hzero : (0 : UInt32).toNat = 0 := rfl
  have hb := base.toNat_lt
  rw [← UInt32.toNat_inj, gt_iff_lt, UInt32.lt_iff_toNat_lt, hff, hzero] at h0
  simp only [UInt32.lt_iff_toNat_lt, UInt32.toNat_mul, UInt32.toNat_add, UInt32.toNat_sub, h4096,
    h1, pageSize] at *
  omega

/-- `vmm_new_user_page` in the user space. -/
lemma vmmNewUserPage {d : ℕ} {base numPages : UInt32} (hv : userMemStart ≤ base.toNat) :
    StaysAbove kd kt (vmmNewUserPage d base numPages) := by
  rw [ShrekOS.vmmNewUserPage]
  split_ifs with h0 hover
  · exact .pure _
  · exact .pure _
  refine .bind (anyMapped d _ _) fun _ => .ite (.pure _) ?_
  refine withFrame fun pAddr => .bind (pdBeginMapping d) fun _ => .ite
    (.bind (undoFrame _ _) fun _ => .pure _) ?_
  refine .bind (mapUserPages hv (newPages_le h0 hover) _ le_rfl) fun _ => .ite ?_ ?_
  · exact .bind (pdAbortMapping d) fun _ => .bind (pdDeallocFrame _ _) fun _ =>
      .bind (liftFm _) fun _ => .pure _
  · exact .bind (pdCommitMapping d) fun _ => .pure _

lemma syscallNewPages (d : ℕ) (base : UInt32) (len : ℤ) :
    StaysAbove kd kt (syscallNewPages d base len) := by
  rw [ShrekOS.syscallNewPages]
  split_ifs with hbase hlen
  · exact .pure _
  · exact .pure _
  · exact .bind (vmmNewUserPage (not_lt.mp hbase)) fun _ => .ite (.pure _) (.pure _)

/-- The loop of `vmm_remove_user_page` stops at the end of memory. -/
lemma removePages (d : ℕ) : ∀ fuel (v : UInt32) prev, userMemStart ≤ v.toNat ∨ v.toNat < pageSize →
    StaysAbove kd kt (removePages d fuel v prev)
  | 0, _, _, _ => .fault _
  | fuel + 1, v, prev, hv => by
      have h4096 : (4096 : UInt32).toNat = 4096 := rfl
      have hlt := v.toNat_lt
      rw [ShrekOS.removePages]
      split_ifs with hwrap
      · exact .fault _
      have hge : userMemStart ≤ v.toNat := by
        rw [gt_iff_lt, UInt32.lt_iff_toNat_lt, UInt32.toNat_sub, h4096] at hwrap
        simp only [pageSize, userMemStart] at *
        omega
      have hpde : numKernelPde ≤ pdeIndex v.toNat := by
        rw [pdeIndex]
        simp only [userMemStart, numKernelPde] at *
        omega
      refine .bind (pdGetMapping d _) fun r => .bind (pdRemoveMapping hpde) fun _ =>
        .ite (.pure _) (.ite (.pure _) (removePages d fuel _ _ ?_))
      rw [UInt32.toNat_add, h4096]
      simp only [pageSize, userMemStart] at *
      omega

/-- `vmm_remove_user_page`. -/
lemma vmmRemoveUserPage (d : ℕ) (base : UInt32) : StaysAbove kd kt (vmmRemoveUserPage d base) := by
  rw [ShrekOS.vmmRemoveUserPage]
  split_ifs with hbase
  · exact .pure _
  refine .bind (pdGetMapping d _) fun r => ?_
  cases r with
  | error _ => exact .pure _
  | ok v =>
      refine .ite (.pure _) (.bind (pdBeginMapping d) fun _ =>
        .bind (removePages d _ base 0 (.inl (by omega))) fun _ => .ite ?_ ?_)
      · exact .bind (pdAbortMapping d) fun _ => .pure _
      refine .bind (pdDeallocFrame d _) fun r => ?_
      cases r with
      | none => exact .bind (pdAbortMapping d) fun _ => .pure _
      | some n =>
          refine .bind (liftFm _) fun _ => .ite ?_ ?_
          · exact .bind (pdAllocFrame _ _ _) fun _ => .bind (pdAbortMapping d) fun _ => .pure _
          · exact .bind (pdCommitMapping d) fun _ => .pure _

/-- `pd_clear_user_space`. -/
lemma pdClearUserSpace (d : ℕ) : StaysAbove kd kt (pdClearUserSpace d) := by
  refine .upTo _ fun k hk s h => ?_
  have h4 : numKernelPde ≤ numKernelPde + k := by omega
  have hi : numKernelPde + k < numEntries := by
    simp only [numEntries, numKernelPde] at *
    omega
  have hfor := h.foreign_entry (d := d) h4 hi
  have hzero : Foreign kd (removeFlags 0) := fun _ hj => (h.nonnull hj).symm
  rw [wlp, wp_bind, wp_entry]
  refine Preserves.ite (.bind (setEntry h4 hzero) fun _ => free ?_) (.pure _) s h
  rintro _ ⟨⟩
  exact hfor

/-- `vmm_clear_user_space`. -/
lemma vmmClearUserSpace (d : ℕ) : StaysAbove kd kt (vmmClearUserSpace d) := by
  have hframes : ∀ frames, StaysAbove kd kt (deallocFrames frames) := by
    intro frames
    induction frames with
    | nil => exact .pure _
    | cons a frames ih => exact .bind (liftFm _) fun _ => ih
  refine .bind (fun s h => ?_) fun frames => .bind (hframes frames) fun _ =>
    .bind (pdClearUserSpace d) fun _ => .pure _
  rw [pdDeallocAllFrames, wlp, wp_bind, wp_gets, wp_bind, wp_setPd]
  exact h.replaceSame rfl fun _ ht => ht

/-! ### Copies -/

lemma ptCopy {dest src : ℕ} (hdest : Foreign kd dest) :
    ∀ k pAddr, StaysAbove kd kt (ptCopy dest src k pAddr)
  | 0, _ => .pure _
  | k + 1, _ => .bind (.gets _) fun _ => .ite
      (.bind malloc fun _ => .ite (.pure _) (.bind (setPte hdest _ _) fun _ => ptCopy hdest k _))
      (ptCopy hdest k _)

/-- The heap goes on answering. -/
lemma malloc_keeps : Preserves Generous Vm.malloc := fun _ hg =>
  wlp_of_wp (malloc_generous hg fun _ hg' => hg')

lemma ptCopy_generous (dest src : ℕ) :
    ∀ k pAddr, Preserves Generous (ShrekOS.ptCopy dest src k pAddr)
  | 0, _ => .pure _
  | k + 1, _ => .bind (.gets _) fun _ => .ite
      (.bind malloc_keeps fun _ => .ite (.pure _)
        (.bind (.modify fun _ hg => hg) fun _ => ptCopy_generous dest src k _))
      (ptCopy_generous dest src k _)

lemma liftFm_generous {α : Type} (c : FmM α) : Preserves Generous (Vm.liftFm c) := by
  intro s hg
  rw [wlp, wp_liftFm]
  exact wp_any c (fun _ _ => hg) fun _ _ => trivial

lemma pdAllocFrame_generous (d a n : ℕ) : Preserves Generous (ShrekOS.pdAllocFrame d a n) :=
  .bind (.gets _) fun _ => .bind (.modify fun _ hg => hg) fun _ => .bind malloc_keeps fun _ =>
    .ite (.pure _) (.bind malloc_keeps fun _ => .ite (.pure _)
      (.bind (.gets _) fun _ => .bind (.modify fun _ hg => hg) fun _ => .pure _))

/-- The copy of a user space that gets all its page tables. -/
lemma deepCopyFrom (dest src : ℕ) : ∀ k ≤ numEntries - numKernelPde, ∀ pAddr backup s,
    KernelSpace kd kt s → Generous s →
      wlp (deepCopyFrom dest src k pAddr backup) (fun _ s' => KernelSpace kd kt s') s := by
  intro k
  induction k with
  | zero => exact fun _ _ _ _ h _ => h
  | succ k ih =>
      intro hk pAddr backup s h hg
      have h4 : numKernelPde ≤ numEntries - (k + 1) := by
        simp only [numEntries, numKernelPde] at *
        omega
      rw [ShrekOS.deepCopyFrom, wlp, wp_bind, wp_entry, wp_ite]
      refine ⟨fun _ => ?_, fun _ => ih (by omega) pAddr backup s h hg⟩
      rw [wp_bind]
      refine wp_imp (wp_and (memalign h) (wlp_of_wp (memalign_generous hg (Q := fun r s' =>
        Generous s' ∧ r ≠ none) fun _ _ _ _ _ hg' => ⟨hg', by simp⟩))) ?_
      rintro r s₁ ⟨⟨h₁, hr⟩, hg₁, hne⟩
      obtain ⟨a, rfl⟩ := Option.ne_none_iff_exists'.mp hne
      obtain ⟨hal, hfor⟩ := hr a rfl
      dsimp only
      have hrem : Foreign kd (removeFlags (a ||| extractFlags ((s.pds src).directory
          (numEntries - (k + 1))))) := by
        change Foreign kd (removeFlags (addFlags a _))
        rwa [removeFlags_addFlags hal (extractFlags_lt _)]
      rw [wp_bind, wp_clearTable, wp_bind, wp_entry, wp_bind, wp_setEntry, wp_bind]
      have h₂ := wp_bind _ _ |>.mp ((Preserves.bind (clearTable hfor) fun _ =>
        setEntry (d := dest) h4 hrem) s₁ h₁)
      refine wp_imp (wp_and (ptCopy hfor _ _ _ h₂) (ptCopy_generous _ _ _ _ _ ?_))
        fun pAddr' s₃ h₃ => ih (by omega) pAddr' _ s₃ h₃.1 h₃.2
      exact hg₁

/-- `vmm_deep_copy`, when the heap answers. -/
lemma vmmDeepCopy (dest src : ℕ) (garbage : ℕ → ℕ) {s : Vm} (h : KernelSpace kd kt s)
    (hg : Generous s) :
    wlp (vmmDeepCopy dest src garbage) (fun _ s' => KernelSpace kd kt s') s := by
  have hframe : ∀ n (use : ℕ → VmM ℤ),
      (∀ a s, KernelSpace kd kt s → Generous s → wlp (use a) (fun _ s' => KernelSpace kd kt s') s) →
        wlp (ShrekOS.withFrame dest n (-3) (-4) use) (fun _ s' => KernelSpace kd kt s') s := by
    intro n use huse
    rw [ShrekOS.withFrame, wlp, wp_bind]
    refine wp_imp (((liftFm _).and (liftFm_generous _)) s ⟨h, hg⟩) fun r s₁ h₁ => ?_
    cases r with
    | error _ => exact h₁.1
    | ok a =>
        dsimp only
        rw [wp_bind]
        refine wp_imp (((pdAllocFrame dest a n).and (pdAllocFrame_generous _ _ _)) s₁ h₁)
          fun c s₂ h₂ => ?_
        rw [wp_ite]
        refine ⟨fun _ => ?_, fun _ => huse a s₂ h₂.1 h₂.2⟩
        exact Preserves.bind (liftFm _) (fun _ => .pure _) s₂ h₂.1
  rw [ShrekOS.vmmDeepCopy, wlp, wp_bind, wp_gets]
  refine hframe _ _ fun a s₁ h₁ hg₁ => ?_
  rw [wlp, wp_bind]
  refine wp_imp (deepCopyFrom dest src _ le_rfl a garbage s₁ h₁ hg₁) fun r s₂ h₂ => ?_
  exact Preserves.ite (.bind (undoFrame _ _) fun _ => .pure _) (.pure _) s₂ h₂

/-- `pd_init`. -/
lemma pdInit (d : ℕ) : StaysAbove kd kt (pdInit kd d) := by
  refine .bind malloc fun _ => .ite (.pure _) (.bind malloc fun _ => .ite (.pure _)
    (.bind malloc fun _ => .ite (.pure _) fun s h => ?_))
  rw [wlp, wp_bind, wp_setPd]
  refine h.replace (fun i hi => if_pos hi) (fun i h4 hi j hj => ?_) (by simp [freshDirectory])
  change removeFlags (if i < numKernelPde then kd i else 0) ≠ _
  rw [if_neg (not_lt.mpr h4)]
  exact (h.nonnull hj).symm

end StaysAbove

/-! ### Runs -/

/-- A call with its arguments. -/
inductive KernelOp where
  | init (d : ℕ)
  | mapSections (d : ℕ) (secs : List MemSection) (garbage : UInt32 × UInt32)
  | newPages (d : ℕ) (base : UInt32) (len : ℤ)
  | removeUserPage (d : ℕ) (base : UInt32)
  | deepCopy (dest src : ℕ) (garbage : ℕ → ℕ)
  | clearUserSpace (d : ℕ)

/-- A call, whatever it returns; `kernelPde` are the slots that `pd_init_kernel` has made. -/
def KernelOp.perform (kernelPde : ℕ → ℕ) : KernelOp → VmM Unit
  | .init d => do let _ ← pdInit kernelPde d
  | .mapSections d secs garbage => do let _ ← vmmMapSections d secs garbage
  | .newPages d base len => do let _ ← syscallNewPages d base len
  | .removeUserPage d base => do let _ ← vmmRemoveUserPage d base
  | .deepCopy dest src garbage => do let _ ← vmmDeepCopy dest src garbage
  | .clearUserSpace d => do let _ ← vmmClearUserSpace d

/-- A step: a call with the answers of the heap, or the contents of memory that is not in use
change. -/
inductive KernelStep where
  | call (op : KernelOp) (heap : List (Option ℕ))
  | scribble (memory : ℕ → ℕ → ℕ)

/-- After boot: the page tables of the kernel are in place, none of them at `NULL`. -/
structure KernelInit (s : Vm) : Prop extends VmInit s, KernelMapped s where
  nonnull : ∀ i < numKernelPde, removeFlags (s.dirs 0 i) ≠ 0

/-- The runs of the calls. -/
def kernelMachine (kernelPde : ℕ → ℕ) : Machine Vm KernelStep where
  init s := KernelInit s ∧ ∀ i < numKernelPde, s.dirs 0 i = kernelPde i
  step s a s' :=
    match a with
    | .call op heap => op.perform kernelPde { s with heap := heap } = (.ok (), s')
    | .scribble memory => s' = s.scribble memory

/-- No section begins below the user space, the flags of the sections are flags, and the heap
answers the calls that make page tables: after a batch that was aborted a directory leads to a
freed page table, and a new directory may get that memory. -/
def Above : KernelStep → Prop
  | .call (.mapSections _ secs garbage) heap =>
      InUserSpace secs garbage ∧ (∀ ms ∈ secs, ms.pdeF.toNat < 2 ^ 12) ∧ ∀ r ∈ heap, r ≠ none
  | .call (.newPages _ _ _) heap => ∀ r ∈ heap, r ≠ none
  | .call (.deepCopy _ _ _) heap => ∀ r ∈ heap, r ≠ none
  | _ => True

variable {kernelPde : ℕ → ℕ} {s : Vm}

/-- After boot the page tables of the kernel are apart. -/
lemma KernelInit.space (h : KernelInit s) :
    KernelSpace (s.dirs 0) (fun i => s.pt (removeFlags (s.dirs 0 i))) s where
  dir hi := (h.kernel _ _ hi).1
  present hi := (h.kernel 0 _ hi).2.1
  nonnull hi := h.nonnull _ hi
  table _ := rfl
  live hi := (h.kernel 0 _ hi).2.2
  apart {d i j} h4 hi hj := by
    have hzero : s.dirs d i = 0 := (h.fresh d).2.2.2 i h4 hi
    rw [hzero]
    exact (h.nonnull j hj).symm
  tasks {d t} ht := by
    rw [(s.pds d).idle (h.fresh d).2.2.1] at ht
    cases ht

/-- The slots of the kernel alone matter. -/
lemma KernelSpace.congr {kd kd' : ℕ → ℕ} {kt kt' : ℕ → ℕ → ℕ} (h : KernelSpace kd kt s)
    (hd : ∀ i < numKernelPde, kd' i = kd i) (ht : ∀ i < numKernelPde, kt' i = kt i) :
    KernelSpace kd' kt' s where
  dir hi := by rw [hd _ hi, h.dir hi]
  present hi := by rw [hd _ hi, h.present hi]
  nonnull hi := by
    rw [hd _ hi]
    exact h.nonnull hi
  table hi := by rw [hd _ hi, ht _ hi, h.table hi]
  live hi := by rw [hd _ hi, h.live hi]
  apart h4 hi hj := by
    rw [hd _ hj]
    exact h.apart h4 hi hj
  tasks htask := ⟨(h.tasks htask).1, fun ha hj => by
    rw [hd _ hj]
    exact (h.tasks htask).2 ha hj⟩

/-- Every call that stays above keeps the page tables of the kernel apart. -/
lemma KernelSpace.step {kt : ℕ → ℕ → ℕ} {s' : Vm} (h : KernelSpace kernelPde kt s) {a : KernelStep}
    (ha : Above a) (hstep : (kernelMachine kernelPde).step s a s') :
    KernelSpace kernelPde kt s' := by
  cases a with
  | scribble memory =>
      obtain rfl : s' = s.scribble memory := hstep
      exact { h with
        table := fun hi => (if_pos (h.live hi)).trans (h.table hi) }
  | call op heap =>
      have hrun : op.perform kernelPde { s with heap := heap } = (.ok (), s') := hstep
      have h' : KernelSpace kernelPde kt { s with heap := heap } := h.of_eq rfl rfl rfl
      have hkeep : wlp (op.perform kernelPde) (fun _ s' => KernelSpace kernelPde kt s')
          { s with heap := heap } := by
        cases op with
        | init d => exact Preserves.bind (StaysAbove.pdInit d) (fun _ => .pure _) _ h'
        | mapSections d secs garbage =>
            exact Preserves.bind (StaysAbove.vmmMapSections ha.2.1 ha.1) (fun _ => .pure _) _ h'
        | newPages d base len =>
            exact Preserves.bind (StaysAbove.syscallNewPages d base len) (fun _ => .pure _) _ h'
        | removeUserPage d base =>
            exact Preserves.bind (StaysAbove.vmmRemoveUserPage d base) (fun _ => .pure _) _ h'
        | deepCopy dest src garbage =>
            rw [KernelOp.perform, wlp, wp_bind]
            exact wp_imp (StaysAbove.vmmDeepCopy dest src garbage h' ha) fun _ _ h₁ => h₁
        | clearUserSpace d =>
            exact Preserves.bind (StaysAbove.vmmClearUserSpace d) (fun _ => .pure _) _ h'
      exact wp_ok (Q := fun _ s' => KernelSpace kernelPde kt s') hkeep hrun

/-- **Kernel mappings never change** in a run whose steps stay above the kernel. -/
theorem kernelMapped_of_above (h : (kernelMachine kernelPde).Reach (fun _ a => Above a) s) :
    KernelMapped s := by
  have hinv : ∃ s₀ kt, KernelMapped s₀ ∧ KernelSpace kernelPde kt s₀ ∧
    KernelSpace kernelPde kt s := by
    refine Machine.Reach.inv
      (I := fun s => ∃ s₀ kt, KernelMapped s₀ ∧ KernelSpace kernelPde kt s₀ ∧
        KernelSpace kernelPde kt s) ?_ ?_ h
    · rintro s₀ ⟨h₀, hk⟩
      have hspace := h₀.space.congr (fun i hi => (hk i hi).symm) fun _ _ => rfl
      exact ⟨s₀, _, h₀.toKernelMapped, hspace, hspace⟩
    · rintro s a s' ⟨s₀, kt, hm, h₀, hs⟩ ha hstep
      exact ⟨s₀, kt, hm, h₀, hs.step ha hstep⟩
  obtain ⟨s₀, kt, hm, h₀, hs⟩ := hinv
  exact h₀.mapped hm hs

/-- The direct map after boot. -/
lemma bootVm_kernelInit : KernelInit (bootVm 3 8) := by
  have hboot : VmInit (bootVm 3 8) :=
    bootVm_init (by decide) (by decide) (by decide) (by decide)
  refine ⟨hboot, ⟨fun d => ?_, fun d w h0 hw => ?_, fun d => ?_⟩, ?_⟩
  · rw [Option.eq_none_iff_forall_ne_some]
    intro v hv
    obtain ⟨-, hp, rfl⟩ := pageEntry_eq_some.mp hv
    rw [Nat.zero_div, Nat.zero_mod, show (bootVm 3 8).dirs d 0 = bootDirectory 0 from rfl,
      show (bootVm 3 8).pt = bootTable from rfl] at hp
    exact absurd hp (by decide)
  · have hi : w / numEntries < numKernelPde := by
      simp only [numKernelPte, numEntries, numKernelPde] at *
      omega
    obtain ⟨hpre, htab⟩ := bootDirectory_kernel _ hi
    have hpage : bootTable (removeFlags (bootDirectory (w / numEntries))) (w % numEntries) =
        addFlags (pageSize * w) kernelPteFlags := by
      have hsum : numEntries * (w / numEntries) + w % numEntries = w := Nat.div_add_mod _ _
      have hdiv : (0x100000 + pageSize * (w / numEntries) - 0x100000) / pageSize =
        w / numEntries := by
        rw [Nat.add_sub_cancel_left, Nat.mul_div_cancel_left _ FrameManager.pageSize_pos]
      rw [htab, bootTable, hdiv, hsum, if_neg (by omega), kernelPteFlags]
    refine pageEntry_eq_some.mpr ⟨hpre, ?_, hpage⟩
    rw [entryPresent_addFlags (Nat.mul_mod_right _ _)]
    rfl
  · change ∀ i < numKernelPde, extractFlags (bootDirectory i) = kernelPdeFlags
    decide
  · change ∀ i < numKernelPde, removeFlags (bootDirectory i) ≠ 0
    decide

/-- The step of the machine as a function. -/
def kernelStep (kernelPde : ℕ → ℕ) (s : Vm) : KernelStep → Option Vm
  | .call op heap =>
      match op.perform kernelPde { s with heap := heap } with
      | (.ok (), s') => some s'
      | (.error _, _) => none
  | .scribble memory => some (s.scribble memory)

lemma kernelStep_sound (s : Vm) (a : KernelStep) (s' : Vm)
    (h : kernelStep kernelPde s a = some s') :
    (kernelMachine kernelPde).step s a s' := by
  cases a with
  | call op heap =>
      rw [kernelStep] at h
      change op.perform kernelPde { s with heap := heap } = (.ok (), s')
      rcases hrun : op.perform kernelPde { s with heap := heap } with ⟨e | ⟨⟩, s₁⟩
      · simp [hrun] at h
      · simp only [hrun, Option.some.injEq] at h
        rw [h]
  | scribble memory =>
      rw [kernelStep, Option.some.injEq] at h
      exact h.symm

lemma bootVm_kernelMachine : (kernelMachine bootDirectory).init (bootVm 3 8) :=
  ⟨bootVm_kernelInit, fun _ _ => rfl⟩

/-- A program is loaded, gets a page and is forked. -/
def loadRun : List KernelStep :=
  [.call (.mapSections 0 [⟨0x1000000, 0x1000, 7, 5⟩] (0, 0))
      [some 0x9000, some 0x9010, some 0x5000, some 0x9020, some 0x9030],
    .call (.newPages 0 0x1002000 0x1000) [some 0x9040, some 0x9050, some 0x9060, some 0x9070],
    .call (.deepCopy 1 0 id) [some 0x9080, some 0x9090, some 0x6000, some 0x90a0, some 0x90b0]]

/-- After it the kernel mappings are as before. -/
theorem kernelMapped_of_above_loadRun :
    ∃ s, s.userMap 1 0x1002 = some 0x1003000 ∧ KernelMapped s := by
  have hrun : ((Machine.replay (kernelStep bootDirectory) (bootVm 3 8) loadRun).map fun s =>
      s.userMap 1 0x1002) = some (some 0x1003000) := by decide +kernel
  rw [Option.map_eq_some_iff] at hrun
  obtain ⟨s, hs, hmap⟩ := hrun
  refine ⟨s, hmap, @kernelMapped_of_above bootDirectory s
    (Machine.reach_of_replay kernelStep_sound loadRun ?_ (.init bootVm_kernelMachine) hs)⟩
  intro a ha s
  fin_cases ha
  · exact ⟨by decide, by decide, by simp⟩
  · simp [Above]
  · simp [Above]

/-- A program with a section in the kernel. -/
def kernelSection : List KernelStep :=
  [.call (.mapSections 0 [⟨0x100000, 0x1000, 7, 7⟩] (0, 0))
    [some 0x9000, some 0x9010, some 0x9020, some 0x9030]]

/-- **A section in the kernel** changes the kernel mapping of another process. -/
theorem not_kernelMapped_of_sections :
    ∃ s, (kernelMachine bootDirectory).Reachable s ∧ s.pageEntry 1 0x100 = some 0x1000007 ∧
      ¬ KernelMapped s := by
  have hrun : ((Machine.replay (kernelStep bootDirectory) (bootVm 3 8) kernelSection).map fun s =>
      s.pageEntry 1 0x100) = some (some 0x1000007) := by decide +kernel
  rw [Option.map_eq_some_iff] at hrun
  obtain ⟨s, hs, hmap⟩ := hrun
  refine ⟨s, ?_, hmap, fun h => ?_⟩
  · exact Machine.reach_of_replay kernelStep_sound kernelSection (fun _ _ _ => trivial)
      (.init bootVm_kernelMachine) hs
  · have := h.direct 1 0x100 (by decide) (by decide)
    rw [hmap] at this
    exact absurd this (by decide)

end ShrekOS
