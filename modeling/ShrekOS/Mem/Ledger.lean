/-
Frame conservation: the frame manager and the page directories agree on who has
which frame, on every exit of every operation.

* `Balanced`: the abstract ledger, a map of allocated extents and a list of
  records for each owner; `Balanced.grant`, `Balanced.revoke`, `Balanced.clear`
  are its moves;
* `LedgerInv`: the ledger of the virtual memory manager is balanced;
* `perform_ledger`: every operation keeps the ledger balanced, whatever the heap
  answers and whatever the page tables hold;
* `memory_conserved`: **the main result**, about whole runs.
-/
import ShrekOS.Lib.Runs
import ShrekOS.Mem.FrameRuns
import ShrekOS.Mem.Vmm
import ShrekOS.Mem.VmRules

namespace ShrekOS

open Kit Kit.Cmd Vm

/-! ### The abstract ledger -/

/-- The records of the owners are exactly the allocated extents, each owned once,
and no record claims more pages than its extent has. -/
structure Balanced (extent : ℕ → Option ℕ) (lists : ℕ → List FrameMetadata) : Prop where
  recorded : ∀ {d m}, m ∈ lists d →
    ∃ k, extent m.pAddr = some k ∧ 0 < m.numPages ∧ m.numPages ≤ k
  owner : ∀ {a}, extent a ≠ none → ∃ d, ∃ m ∈ lists d, m.pAddr = a
  nodup : ∀ d, ((lists d).map FrameMetadata.pAddr).Nodup
  disjoint : ∀ {d d' m m'}, m ∈ lists d → m' ∈ lists d' → m.pAddr = m'.pAddr → d = d'

namespace Balanced

variable {extent : ℕ → Option ℕ} {lists : ℕ → List FrameMetadata} {d a n k : ℕ}

/-- A record of an owner is determined by its address. -/
lemma record_unique (h : Balanced extent lists) {m m' : FrameMetadata} (hm : m ∈ lists d)
    (hm' : m' ∈ lists d) (heq : m.pAddr = m'.pAddr) : m = m' :=
  List.inj_on_of_nodup_map (h.nodup d) hm hm' heq

/-- A new extent is given to an owner. -/
lemma grant (h : Balanced extent lists) (ha : extent a = none) (hn : 0 < n) (hk : n ≤ k) (d : ℕ) :
    Balanced (Function.update extent a (some k))
      (Function.update lists d (⟨a, n⟩ :: lists d)) := by
  -- no record of the old lists is about the new address
  have hne : ∀ {d m}, m ∈ lists d → m.pAddr ≠ a := by
    intro d m hm heq
    obtain ⟨k', hk', -⟩ := h.recorded hm
    rw [heq, ha] at hk'
    simp at hk'
  have hmem : ∀ {e m}, m ∈ Function.update lists d (⟨a, n⟩ :: lists d) e →
      (e = d ∧ m = ⟨a, n⟩) ∨ m ∈ lists e := by
    intro e m hm
    by_cases he : e = d
    · subst he
      rw [Function.update_self] at hm
      rcases List.mem_cons.mp hm with rfl | hm
      · exact .inl ⟨rfl, rfl⟩
      · exact .inr hm
    · rw [Function.update_of_ne he] at hm
      exact .inr hm
  refine ⟨?_, ?_, ?_, ?_⟩
  · intro e m hm
    rcases hmem hm with ⟨-, rfl⟩ | hm
    · exact ⟨k, by simp, hn, hk⟩
    · rw [Function.update_of_ne (hne hm)]
      exact h.recorded hm
  · intro b hb
    by_cases hba : b = a
    · exact ⟨d, ⟨a, n⟩, by simp, hba.symm⟩
    · rw [Function.update_of_ne hba] at hb
      obtain ⟨e, m, hm, rfl⟩ := h.owner hb
      refine ⟨e, m, ?_, rfl⟩
      by_cases he : e = d
      · subst he
        rw [Function.update_self]
        exact .tail _ hm
      · rwa [Function.update_of_ne he]
  · intro e
    by_cases he : e = d
    · subst he
      rw [Function.update_self, List.map_cons, List.nodup_cons]
      refine ⟨fun hmem => ?_, h.nodup e⟩
      obtain ⟨m, hm, heq⟩ := List.mem_map.mp hmem
      exact hne hm heq
    · rw [Function.update_of_ne he]
      exact h.nodup e
  · intro e e' m m' hm hm' heq
    rcases hmem hm with ⟨rfl, rfl⟩ | hm₁
    · rcases hmem hm' with ⟨rfl, -⟩ | hm₂
      · rfl
      · exact absurd heq.symm (hne hm₂)
    · rcases hmem hm' with ⟨rfl, rfl⟩ | hm₂
      · exact absurd heq (hne hm₁)
      · exact h.disjoint hm₁ hm₂ heq

/-- Extents and records disappear together. -/
lemma remove (h : Balanced extent lists) {extent' : ℕ → Option ℕ}
    {lists' : ℕ → List FrameMetadata} (hsub : ∀ d, (lists' d).Sublist (lists d))
    (hgone : ∀ {d m}, m ∈ lists d → (m ∈ lists' d ↔ extent' m.pAddr ≠ none))
    (hext : ∀ {a}, extent' a ≠ none → extent' a = extent a) : Balanced extent' lists' := by
  refine ⟨?_, ?_, ?_, ?_⟩
  · intro d m hm
    have hm' := (hsub d).subset hm
    obtain ⟨k, hk, h1, h2⟩ := h.recorded hm'
    exact ⟨k, by rw [hext ((hgone hm').mp hm), hk], h1, h2⟩
  · intro a ha
    obtain ⟨d, m, hm, rfl⟩ := h.owner (hext ha ▸ ha)
    exact ⟨d, m, (hgone hm).mpr ha, rfl⟩
  · intro d
    exact (h.nodup d).sublist ((hsub d).map _)
  · intro d d' m m' hm hm' heq
    exact h.disjoint ((hsub d).subset hm) ((hsub d').subset hm') heq

/-- An extent is taken from its owner. -/
lemma revoke (h : Balanced extent lists) (ha : ∃ m ∈ lists d, m.pAddr = a) :
    Balanced (Function.update extent a none)
      (Function.update lists d ((lists d).eraseP fun m => m.pAddr = a)) := by
  obtain ⟨m₀, hm₀, rfl⟩ := ha
  refine h.remove ?_ ?_ ?_
  · intro e
    by_cases he : e = d
    · subst he
      rw [Function.update_self]
      exact List.eraseP_sublist
    · rw [Function.update_of_ne he]
  · intro e m hm
    by_cases hma : m.pAddr = m₀.pAddr
    · -- the record that goes
      obtain rfl := h.disjoint hm hm₀ hma
      obtain rfl := h.record_unique hm hm₀ hma
      simp only [Function.update_self, ne_eq, not_true_eq_false, iff_false]
      intro hmem
      have hnd := h.nodup e
      clear hm hm₀ hma h
      generalize lists e = l at hmem hnd
      induction l with
      | nil => simp at hmem
      | cons c l ih =>
          rw [List.map_cons, List.nodup_cons] at hnd
          by_cases hc : c.pAddr = m.pAddr
          · rw [List.eraseP_cons_of_pos (by simpa using hc)] at hmem
            exact hnd.1 (hc ▸ List.mem_map_of_mem hmem)
          · rw [List.eraseP_cons_of_neg (by simpa using hc)] at hmem
            rcases List.mem_cons.mp hmem with rfl | hmem
            · exact hc rfl
            · exact ih hmem hnd.2
    · rw [Function.update_of_ne hma]
      obtain ⟨k', hk', -⟩ := h.recorded hm
      simp only [hk', ne_eq, reduceCtorEq, not_false_eq_true, iff_true]
      by_cases he : e = d
      · subst he
        rw [Function.update_self]
        exact (List.mem_eraseP_of_neg (by simpa using hma)).mpr hm
      · rwa [Function.update_of_ne he]
  · intro b hb
    have hba : b ≠ m₀.pAddr := by
      rintro rfl
      simp at hb
    rw [Function.update_of_ne hba]

/-- All extents are taken from an owner. -/
lemma clear (h : Balanced extent lists) (d : ℕ) :
    Balanced (fun a => if a ∈ (lists d).map FrameMetadata.pAddr then none else extent a)
      (Function.update lists d []) := by
  refine h.remove ?_ ?_ ?_
  · intro e
    by_cases he : e = d
    · subst he
      rw [Function.update_self]
      exact List.nil_sublist _
    · rw [Function.update_of_ne he]
  · intro e m hm
    obtain ⟨k', hk', -⟩ := h.recorded hm
    by_cases he : e = d
    · subst he
      simp [List.mem_map_of_mem hm]
    · have hnot : m.pAddr ∉ (lists d).map FrameMetadata.pAddr := by
        intro hmem
        obtain ⟨m', hm', heq⟩ := List.mem_map.mp hmem
        exact he (h.disjoint hm hm' heq.symm)
      rw [Function.update_of_ne he, if_neg hnot, hk']
      simpa using hm
  · intro b hb
    split_ifs at hb ⊢ with hmem
    · exact absurd rfl hb
    · rfl

end Balanced

/-! ### What leaves the ledger alone -/

/-- The records of every directory. -/
def Vm.lists (s : Vm) (d : ℕ) : List FrameMetadata := (s.pds d).pAddrList

/-- The allocated extents. -/
def Vm.extent (s : Vm) : ℕ → Option ℕ := s.fm.view.extent

/-- The number of pages every directory says it has. -/
def Vm.counts (s : Vm) (d : ℕ) : ℕ := (s.pds d).numPages

/-- The two sides of the ledger: what the frame manager has, and what the directories
say. -/
def Vm.ledger (s : Vm) : FrameManager × (ℕ → List FrameMetadata) × (ℕ → ℕ) :=
  (s.fm, s.lists, s.counts)

/-- The faults an operation may stop with: a script of heap answers that no heap
gives, or the overflow check of `vmm_remove_user_page`. -/
def Halts (e : Fault) : Prop :=
  e = .badHeap ∨ e = .panic "Overflowed while deallocating stack space!!"

/-- A command that leaves the ledger alone. -/
abbrev KeepsLedger {α : Type} (c : VmM α) : Prop := Keeps Vm.ledger Halts c

lemma lists_setPd {s : Vm} {d : ℕ} {pd : PageDirectory} (h : pd.pAddrList = (s.pds d).pAddrList) :
    ({ s with pds := Function.update s.pds d pd } : Vm).lists = s.lists := by
  funext e
  by_cases he : e = d
  · subst he
    simp [lists, h]
  · simp [lists, Function.update_of_ne he]

lemma counts_setPd {s : Vm} {d : ℕ} {pd : PageDirectory} (h : pd.numPages = (s.pds d).numPages) :
    ({ s with pds := Function.update s.pds d pd } : Vm).counts = s.counts := by
  funext e
  by_cases he : e = d
  · subst he
    simp [counts, h]
  · simp [counts, Function.update_of_ne he]

lemma ledger_setPd {s : Vm} {d : ℕ} {pd : PageDirectory}
    (hl : pd.pAddrList = (s.pds d).pAddrList) (hc : pd.numPages = (s.pds d).numPages) :
    ({ s with pds := Function.update s.pds d pd } : Vm).ledger = s.ledger :=
  Prod.ext rfl (Prod.ext (lists_setPd hl) (counts_setPd hc))

namespace KeepsLedger

lemma malloc : KeepsLedger Vm.malloc := by
  intro s
  rw [wp_malloc]
  cases s.heap with
  | nil => exact .inl rfl
  | cons r rs => rfl

lemma memalign : KeepsLedger Vm.memalign := by
  intro s
  rw [wp_memalign]
  rcases s.heap with _ | ⟨_ | a, rs⟩
  · exact .inl rfl
  · rfl
  · dsimp only
    split_ifs
    · rfl
    · exact .inl rfl

lemma free (t : Option ℕ) : KeepsLedger (Vm.free t) := by
  cases t with
  | none => exact .pure ()
  | some a => exact .modify fun _ => rfl

lemma setEntry (d i v : ℕ) : KeepsLedger (Vm.setEntry d i v) := by
  intro s
  rw [wp_setEntry]
  exact ledger_setPd rfl rfl

lemma setPte (t j v : ℕ) : KeepsLedger (Vm.setPte t j v) := .modify fun _ => rfl

lemma clearTable (t : ℕ) : KeepsLedger (Vm.clearTable t) := .modify fun _ => rfl

/-- Reading a directory and putting it back with the same records. -/
lemma updatePd {d : ℕ} {f : PageDirectory → PageDirectory}
    (hl : ∀ pd, (f pd).pAddrList = pd.pAddrList) (hc : ∀ pd, (f pd).numPages = pd.numPages) :
    KeepsLedger (do let pd ← gets fun s => s.pds d; setPd d (f pd)) := by
  intro s
  rw [wp_bind, wp_gets, wp_setPd]
  exact ledger_setPd (hl _) (hc _)

lemma pdGetMapping (d v : ℕ) : KeepsLedger (pdGetMapping d v) :=
  .bind (.gets _) fun _ => .ite (.pure _) (.bind (.gets _) fun _ => .ite (.pure _) (.pure _))

lemma pdBeginMapping (d : ℕ) : KeepsLedger (pdBeginMapping d) := by
  intro s
  rw [ShrekOS.pdBeginMapping, wp_bind, wp_gets, wp_ite]
  refine ⟨fun _ => rfl, fun _ => ?_⟩
  rw [wp_bind, wp_setPd]
  exact ledger_setPd rfl rfl

lemma freeResources : ∀ tasks, KeepsLedger (freeResources tasks)
  | [] => .pure ()
  | _ :: tasks => .bind (free _) fun _ => freeResources tasks

lemma pdAbortMapping (d : ℕ) : KeepsLedger (pdAbortMapping d) :=
  .bind (.gets _) fun _ => .bind (freeResources _) fun _ => updatePd (fun _ => rfl) fun _ => rfl

lemma commitTasks (d : ℕ) : ∀ tasks, KeepsLedger (commitTasks d tasks)
  | [] => .pure ()
  | _ :: tasks => .bind (.gets _) fun _ => .bind (setPte _ _ _) fun _ => commitTasks d tasks

lemma pdCommitMapping (d : ℕ) : KeepsLedger (pdCommitMapping d) :=
  .bind (.gets _) fun _ => .bind (commitTasks d _) fun _ => updatePd (fun _ => rfl) fun _ => rfl

lemma createTable (d i flags : ℕ) : KeepsLedger (createTable d i flags) := by
  refine .bind (.gets _) fun pde => .ite (.pure _) (.bind memalign fun r => ?_)
  cases r with
  | none => exact .pure _
  | some a => exact .bind (clearTable a) fun _ => .bind (setEntry _ _ _) fun _ => .pure _

lemma recordMapping (d v t pte : ℕ) (r : Option ℕ) : KeepsLedger (recordMapping d v t pte r) := by
  refine .bind (.gets _) fun _ => .ite (.bind malloc fun _ => .ite (.pure _)
    (.bind malloc fun _ => .ite (.bind (free r) fun _ => .pure _) ?_))
    (.bind (setPte _ _ _) fun _ => .pure _)
  intro s
  rw [wp_bind, wp_gets, wp_bind, wp_setPd]
  exact ledger_setPd (PageDirectory.addTask_pAddrList _ _) (PageDirectory.addTask_numPages _ _)

lemma pdCreateMapping (d v p f g : ℕ) : KeepsLedger (pdCreateMapping d v p f g) := by
  refine .ite (.pure _) (.bind (createTable _ _ _) fun r => ?_)
  rcases r with _ | ⟨pde, r⟩
  · exact .pure _
  · exact recordMapping _ _ _ _ _

lemma pdRemoveMapping (d v : ℕ) : KeepsLedger (pdRemoveMapping d v) :=
  .ite (.pure _) (.bind (.gets _) fun _ => .ite (.pure _) (.bind (.gets _) fun _ =>
    .ite (.pure _) (recordMapping _ _ _ _ _)))

lemma ptCopy (dest src : ℕ) : ∀ k pAddr, KeepsLedger (ptCopy dest src k pAddr)
  | 0, _ => .pure _
  | k + 1, _ => .bind (.gets _) fun _ => .ite
      (.bind malloc fun _ => .ite (.pure _) (.bind (setPte _ _ _) fun _ => ptCopy dest src k _))
      (ptCopy dest src k _)

lemma rollBack (dest i : ℕ) (backup : ℕ → ℕ) : KeepsLedger (rollBack dest i backup) :=
  .bind (.upTo (fun _ => .bind (.gets _) fun _ => .ite (free _) (.pure _)) _) fun _ =>
    updatePd (fun _ => rfl) fun _ => rfl

lemma deepCopyFrom (dest src : ℕ) :
    ∀ k pAddr backup, KeepsLedger (deepCopyFrom dest src k pAddr backup)
  | 0, _, _ => .pure _
  | k + 1, _, _ => by
      refine .bind (.gets _) fun _ => .ite (.bind memalign fun r => ?_)
        (deepCopyFrom dest src k _ _)
      cases r with
      | none => exact .bind (rollBack _ _ _) fun _ => .pure _
      | some a =>
          exact .bind (clearTable a) fun _ => .bind (.gets _) fun _ =>
            .bind (setEntry _ _ _) fun _ => .bind (ptCopy _ _ _ _) fun _ =>
              deepCopyFrom dest src k _ _

lemma pdClearUserSpace (d : ℕ) : KeepsLedger (pdClearUserSpace d) :=
  .upTo (fun _ => .bind (.gets _) fun _ =>
    .ite (.bind (setEntry _ _ _) fun _ => free _) (.pure _)) _

lemma mapPages (d : ℕ) (secs : List MemSection) (v : UInt32) (p n : ℕ) :
    ∀ k, KeepsLedger (mapPages d secs v p n k)
  | 0 => .pure _
  | k + 1 => .ite (.pure _) (.bind (pdCreateMapping _ _ _ _ _) fun _ =>
      .ite (.pure _) (mapPages d secs v p n k))

lemma anyMapped (d : ℕ) : ∀ k v, KeepsLedger (anyMapped d k v)
  | 0, _ => .pure _
  | k + 1, _ => by
      refine .bind (pdGetMapping _ _) fun r => ?_
      cases r with
      | ok v => exact .pure _
      | error e => exact anyMapped d k _

lemma mapUserPages (d : ℕ) (base : UInt32) (p n : ℕ) : ∀ k, KeepsLedger (mapUserPages d base p n k)
  | 0 => .pure _
  | k + 1 => .bind (pdCreateMapping _ _ _ _ _) fun _ =>
      .ite (.pure _) (mapUserPages d base p n k)

/-- The loop of `vmm_remove_user_page` ends at the top of memory at the latest: the
fuel outlasts the pages from `v` on. -/
lemma removePages (d : ℕ) : ∀ (fuel : ℕ) (v : UInt32) (prev : ℕ), v.toNat % pageSize = 0 →
    0 < fuel → (v.toNat = 0 ∨ 2 ^ 32 + pageSize ≤ v.toNat + pageSize * fuel) →
    KeepsLedger (removePages d fuel v prev)
  | 0, _, _, _, hpos, _ => absurd hpos (lt_irrefl 0)
  | fuel + 1, v, prev, hal, _, hfuel => by
      rw [ShrekOS.removePages]
      split_ifs with hover
      · exact .fault (.inr rfl)
      · refine .bind (pdGetMapping _ _) fun r => .bind (pdRemoveMapping _ _) fun c =>
          .ite (.pure _) (.ite (.pure _) ?_)
        -- the page is not the first one, and the next one is above it or the first one
        have hlt := v.toNat_lt
        have hge : 4096 ≤ v.toNat := by
          by_contra hcon
          refine hover ?_
          rw [gt_iff_lt, UInt32.lt_iff_toNat_lt, UInt32.toNat_sub]
          have h4096 : (4096 : UInt32).toNat = 4096 := rfl
          omega
        have hnext : (v + 4096).toNat = (v.toNat + 4096) % 2 ^ 32 := UInt32.toNat_add v 4096
        simp only [pageSize] at hal hfuel
        exact removePages d fuel (v + 4096) _ (by simp only [pageSize]; omega) (by omega)
          (by simp only [pageSize]; omega)

end KeepsLedger

/-! ### What changes the ledger -/

/-- The ledger is balanced, and the frame manager's structures are in order. -/
structure LedgerInv (lim : ℕ) (s : Vm) : Prop where
  fm : s.fm.Inv lim
  balanced : Balanced s.extent s.lists

variable {lim : ℕ} {s : Vm} {E : Fault → Vm → Prop}

/-- A command that leaves the ledger alone keeps its balance. -/
lemma KeepsLedger.wp_of {α : Type} {c : VmM α} (hc : KeepsLedger c) {s : Vm}
    {Q : α → Vm → Prop} (hQ : ∀ a s', s'.fm = s.fm → s'.lists = s.lists → Q a s') :
    wp c Q (fun e _ => Halts e) s :=
  wp_imp (hc s) fun a s' hs' =>
    hQ a s' (congrArg Prod.fst hs') (congrArg (fun l => l.2.1) hs')

/-- A frame manager of which only the extents matter. -/
lemma extent_eq {fm : FrameManager} {e : ℕ → Option ℕ} {s' : Vm} (h : s'.fm = fm)
    (he : fm.view.extent = e) : s'.extent = e := by
  rw [Vm.extent, h, he]

/-- `fm_alloc` on behalf of the virtual memory manager. -/
lemma liftFm_fmAlloc (h : s.fm.Inv lim) (n : ℕ) :
    wp (liftFm (fmAlloc n)) (fun r s' => s' = { s with fm := s'.fm } ∧ s'.fm.Inv lim ∧
      match r with
      | .error _ => s'.extent = s.extent
      | .ok a => 0 < n ∧ s.extent a = none ∧
          ∃ k, n ≤ k ∧ s'.extent = Function.update s.extent a (some k))
      E s := by
  rw [wp_liftFm]
  refine wp_mono (FrameManager.fmAlloc_spec h n) (fun r fm' hr => ?_) fun _ _ hf => hf.elim
  rcases r with e | a
  · obtain ⟨-, rfl⟩ := hr
    exact ⟨rfl, h, rfl⟩
  · obtain ⟨hpos, hnone, k, hk, hl⟩ := hr
    exact ⟨rfl, hl.inv, hpos, hnone, k, hk, hl.extent⟩

/-- `fm_dealloc` on behalf of the virtual memory manager. -/
lemma liftFm_fmDealloc (h : s.fm.Inv lim) (a : ℕ) :
    wp (liftFm (fmDealloc a)) (fun r s' => s' = { s with fm := s'.fm } ∧ s'.fm.Inv lim ∧
      s'.extent = Function.update s.extent a none ∧ (s.extent a ≠ none → r = 0))
      E s := by
  rw [wp_liftFm]
  refine wp_mono (FrameManager.fmDealloc_spec h a) (fun r fm' hr => ?_) fun _ _ hf => hf.elim
  exact ⟨rfl, hr.1.inv, hr.1.extent, hr.2.2⟩

/-- Only the frame manager changed. -/
lemma lists_eq_of_fm {s s' : Vm} (h : s' = { s with fm := s'.fm }) : s'.lists = s.lists := by
  rw [h]
  rfl

/-- The records after those of one directory were replaced. -/
lemma lists_setRecords {s : Vm} {d : ℕ} {pd : PageDirectory} :
    ({ s with pds := Function.update s.pds d pd } : Vm).lists =
      Function.update s.lists d pd.pAddrList := by
  funext e
  by_cases he : e = d
  · subst he
    simp [Vm.lists]
  · simp [Vm.lists, Function.update_of_ne he]

/-- `pd_alloc_frame`: a record is added, or nothing is recorded. -/
lemma pdAllocFrame_spec (d a n : ℕ) :
    wp (pdAllocFrame d a n) (fun r s' => s'.fm = s.fm ∧
      ((r < 0 ∧ s'.lists = s.lists) ∨
        (r = 0 ∧ s'.lists = Function.update s.lists d (⟨a, n⟩ :: s.lists d))))
      (fun e _ => Halts e) s := by
  rw [pdAllocFrame, wp_bind, wp_gets, wp_bind, wp_setPd, wp_bind]
  refine KeepsLedger.malloc.wp_of fun b s₁ hf₁ hl₁ => ?_
  replace hl₁ : s₁.lists = s.lists := hl₁.trans (lists_setPd rfl)
  rw [wp_ite]
  refine ⟨fun _ => ⟨hf₁, .inl ⟨by simp, hl₁⟩⟩, fun _ => ?_⟩
  rw [wp_bind]
  refine KeepsLedger.malloc.wp_of fun b s₂ hf₂ hl₂ => ?_
  rw [wp_ite]
  refine ⟨fun _ => ⟨hf₂.trans hf₁, .inl ⟨by simp, hl₂.trans hl₁⟩⟩, fun _ => ?_⟩
  rw [wp_bind, wp_gets, wp_bind, wp_setPd, wp_pure]
  refine ⟨hf₂.trans hf₁, .inr ⟨rfl, ?_⟩⟩
  rw [lists_setRecords, hl₂.trans hl₁]
  have hd : (s₂.pds d).pAddrList = s.lists d := congrFun (hl₂.trans hl₁) d
  rw [hd]

/-- `pd_dealloc_frame`: the record is removed, or there is none. -/
lemma pdDeallocFrame_spec (d a : ℕ) :
    wp (pdDeallocFrame d a) (fun r s' => s'.fm = s.fm ∧
      match r with
      | none => s'.lists = s.lists ∧ ¬ ∃ m ∈ s.lists d, m.pAddr = a
      | some _ => (∃ m ∈ s.lists d, m.pAddr = a) ∧
          s'.lists = Function.update s.lists d ((s.lists d).eraseP fun m => m.pAddr = a))
      E s := by
  rw [pdDeallocFrame, wp_bind, wp_gets]
  cases hfind : (s.pds d).pAddrList.find? fun m => m.pAddr = a with
  | none =>
      refine ⟨rfl, rfl, ?_⟩
      rintro ⟨m, hm, hma⟩
      simpa [hma] using List.find?_eq_none.mp hfind m hm
  | some m =>
      dsimp only
      rw [wp_bind, wp_setPd, wp_pure]
      refine ⟨rfl, ⟨m, List.mem_of_find?_eq_some hfind, ?_⟩, lists_setRecords⟩
      simpa using List.find?_some hfind

/-- `pd_dealloc_all_frames`: the records are given up. -/
lemma pdDeallocAllFrames_spec (d : ℕ) :
    wp (pdDeallocAllFrames d) (fun l s' => l = (s.lists d).map FrameMetadata.pAddr ∧
      s'.fm = s.fm ∧ s'.lists = Function.update s.lists d []) (fun e _ => Halts e) s := by
  rw [pdDeallocAllFrames, wp_bind, wp_gets, wp_bind, wp_setPd, wp_pure]
  exact ⟨rfl, rfl, lists_setRecords⟩

/-! ### The operations -/

/-- The ledger after commands that leave it alone. -/
lemma LedgerInv.of_eq {s' : Vm} (h : LedgerInv lim s) (hf : s'.fm = s.fm)
    (hl : s'.lists = s.lists) : LedgerInv lim s' :=
  ⟨hf ▸ h.fm, by rw [Vm.extent, hf, hl]; exact h.balanced⟩

/-- A command that leaves the ledger alone, before one that keeps its balance. -/
lemma KeepsLedger.seq {α β : Type} {c : VmM β} {k : β → VmM α} {d : ℕ} {a : ℕ}
    (hc : KeepsLedger c) (h : LedgerInv lim s) (ha : ∃ m ∈ s.lists d, m.pAddr = a)
    (hk : ∀ b s', LedgerInv lim s' → (∃ m ∈ s'.lists d, m.pAddr = a) →
      wp (k b) (fun _ s'' => LedgerInv lim s'') (fun e _ => Halts e) s') :
    wp (c >>= k) (fun _ s'' => LedgerInv lim s'') (fun e _ => Halts e) s := by
  rw [wp_bind]
  exact hc.wp_of fun b s' hf hl => hk b s' (h.of_eq hf hl) (by rwa [hl])

/-- A recorded address is allocated. -/
lemma LedgerInv.extent_ne_none (h : LedgerInv lim s) {d a : ℕ}
    (ha : ∃ m ∈ s.lists d, m.pAddr = a) : s.extent a ≠ none := by
  obtain ⟨m, hm, rfl⟩ := ha
  obtain ⟨k, hk, -⟩ := h.balanced.recorded hm
  simp [hk]

/-- Getting a frame and using it in a way that keeps the ledger balanced. -/
lemma withFrame_ledger (h : LedgerInv lim s) (d n : ℕ) (e₁ e₂ : ℤ) {use : ℕ → VmM ℤ}
    (huse : ∀ a s', LedgerInv lim s' → (∃ m ∈ s'.lists d, m.pAddr = a) →
      wp (use a) (fun _ s'' => LedgerInv lim s'') (fun e _ => Halts e) s') :
    wp (withFrame d n e₁ e₂ use) (fun _ s' => LedgerInv lim s') (fun e _ => Halts e) s := by
  rw [withFrame, wp_bind]
  refine wp_imp (liftFm_fmAlloc h.fm n) fun r s₁ ⟨hsame, hfm, hr⟩ => ?_
  have hl := lists_eq_of_fm hsame
  rcases r with e | a
  · exact ⟨hfm, by rw [hr, hl]; exact h.balanced⟩
  · obtain ⟨hpos, hnone, k, hk, hext⟩ := hr
    dsimp only
    rw [wp_bind]
    refine wp_imp (pdAllocFrame_spec d a n) fun r s₂ ⟨hf₂, hr₂⟩ => ?_
    have hext₂ : s₂.extent = Function.update s.extent a (some k) := extent_eq hf₂ hext
    rw [wp_ite]
    rcases hr₂ with ⟨hneg, hl₂⟩ | ⟨rfl, hl₂⟩
    · -- the record could not be made: the frame goes back
      refine ⟨fun _ => ?_, fun hge => absurd hneg hge⟩
      rw [wp_bind]
      refine wp_imp (liftFm_fmDealloc (hf₂ ▸ hfm) a) fun _ s₃ ⟨hsame₃, hfm₃, hext₃, _⟩ => ?_
      refine ⟨hfm₃, ?_⟩
      rw [hext₃, hext₂, lists_eq_of_fm hsame₃, hl₂, hl, Function.update_idem, ← hnone,
        Function.update_eq_self]
      exact h.balanced
    · refine ⟨fun hneg => absurd hneg (by simp), fun _ => huse a s₂ ⟨hf₂ ▸ hfm, ?_⟩ ?_⟩
      · rw [hext₂, hl₂, hl]
        exact h.balanced.grant hnone hpos hk d
      · rw [hl₂, Function.update_self]
        exact ⟨⟨a, n⟩, .head _, rfl⟩

/-- A recorded frame goes back, first to the frame manager. -/
lemma undoFrame_ledger (h : LedgerInv lim s) {d a : ℕ} (ha : ∃ m ∈ s.lists d, m.pAddr = a) :
    wp (undoFrame d a) (fun _ s' => LedgerInv lim s') (fun e _ => Halts e) s := by
  rw [undoFrame, wp_bind]
  refine wp_imp (liftFm_fmDealloc h.fm a) fun _ s₁ ⟨hsame, hfm, hext, _⟩ => ?_
  have hl := lists_eq_of_fm hsame
  rw [wp_bind]
  refine wp_imp (pdDeallocFrame_spec d a) fun r s₂ ⟨hf₂, hr⟩ => ?_
  rw [hl] at hr
  cases r with
  | none => exact absurd ha hr.2
  | some n =>
      refine ⟨hf₂ ▸ hfm, ?_⟩
      rw [extent_eq hf₂ hext, hr.2]
      exact h.balanced.revoke ha

/-- A frame goes back, first from the page directory if that has it. -/
lemma forgetFrame_ledger (h : LedgerInv lim s) (d a : ℕ) :
    wp (pdDeallocFrame d a) (fun r s₁ =>
      (r = none ∧ LedgerInv lim s₁ ∧ ¬ ∃ m ∈ s.lists d, m.pAddr = a) ∨
      ((∃ n, r = some n) ∧ wp (liftFm (fmDealloc a)) (fun c s₂ => c = 0 ∧ LedgerInv lim s₂)
        E s₁)) E s := by
  refine wp_imp (pdDeallocFrame_spec d a) fun r s₁ ⟨hf₁, hr⟩ => ?_
  cases r with
  | none => exact .inl ⟨rfl, h.of_eq hf₁ hr.1, hr.2⟩
  | some n =>
      refine .inr ⟨⟨n, rfl⟩, ?_⟩
      refine wp_imp (liftFm_fmDealloc (hf₁ ▸ h.fm) a) fun c s₂ ⟨hsame, hfm, hext, hc⟩ => ?_
      have hext₁ : s₁.extent = s.extent := extent_eq hf₁ rfl
      rw [hext₁] at hext hc
      refine ⟨hc (h.extent_ne_none hr.1), hfm, ?_⟩
      rw [hext, lists_eq_of_fm hsame, hr.2]
      exact h.balanced.revoke hr.1

/-- `vmm_map_sections` keeps the ledger balanced. -/
lemma vmmMapSections_ledger (h : LedgerInv lim s) (d : ℕ) (secs : List MemSection)
    (garbage : UInt32 × UInt32) :
    wp (vmmMapSections d secs garbage) (fun _ s' => LedgerInv lim s') (fun e _ => Halts e) s := by
  rw [vmmMapSections, wp_ite]
  refine ⟨fun _ => h, fun _ => ?_⟩
  rw [wp_ite]
  refine ⟨fun _ => h, fun _ => withFrame_ledger h d _ _ _ fun a s₁ h₁ ha₁ => ?_⟩
  refine (KeepsLedger.pdBeginMapping d).seq h₁ ha₁ fun r s₂ h₂ ha₂ => ?_
  rw [wp_ite]
  constructor
  · intro _
    rw [wp_bind]
    exact wp_imp (undoFrame_ledger h₂ ha₂) fun _ s₃ h₃ => h₃
  · intro _
    refine (KeepsLedger.mapPages d secs _ _ _ _).seq h₂ ha₂ fun r s₃ h₃ ha₃ => ?_
    rw [wp_ite]
    constructor
    · intro _
      refine (KeepsLedger.pdAbortMapping d).seq h₃ ha₃ fun _ s₄ h₄ ha₄ => ?_
      rw [wp_bind]
      exact wp_imp (undoFrame_ledger h₄ ha₄) fun _ s₅ h₅ => h₅
    · intro _
      exact (KeepsLedger.pdCommitMapping d).seq h₃ ha₃ fun _ s₄ h₄ _ => h₄

/-- `vmm_new_user_page` keeps the ledger balanced. -/
lemma vmmNewUserPage_ledger (h : LedgerInv lim s) (d : ℕ) (base numPages : UInt32) :
    wp (vmmNewUserPage d base numPages) (fun _ s' => LedgerInv lim s') (fun e _ => Halts e) s := by
  rw [vmmNewUserPage, wp_ite]
  refine ⟨fun _ => h, fun _ => ?_⟩
  rw [wp_ite]
  refine ⟨fun _ => h, fun _ => ?_⟩
  rw [wp_bind]
  refine (KeepsLedger.anyMapped d _ _).wp_of fun b s₀ hf₀ hl₀ => ?_
  have h₀ := h.of_eq hf₀ hl₀
  rw [wp_ite]
  refine ⟨fun _ => h₀, fun _ => withFrame_ledger h₀ d _ _ _ fun a s₁ h₁ ha₁ => ?_⟩
  refine (KeepsLedger.pdBeginMapping d).seq h₁ ha₁ fun r s₂ h₂ ha₂ => ?_
  rw [wp_ite]
  constructor
  · intro _
    rw [wp_bind]
    exact wp_imp (undoFrame_ledger h₂ ha₂) fun _ s₃ h₃ => h₃
  · intro _
    refine (KeepsLedger.mapUserPages d _ _ _ _).seq h₂ ha₂ fun r s₃ h₃ ha₃ => ?_
    rw [wp_ite]
    constructor
    · intro _
      refine (KeepsLedger.pdAbortMapping d).seq h₃ ha₃ fun _ s₄ h₄ ha₄ => ?_
      rw [wp_bind]
      refine wp_imp (forgetFrame_ledger h₄ d a) fun r s₅ h₅ => ?_
      rcases h₅ with ⟨-, -, hno⟩ | ⟨-, h₅⟩
      · exact absurd ha₄ hno
      · rw [wp_bind]
        exact wp_imp h₅ fun _ s₆ h₆ => h₆.2
    · intro _
      exact (KeepsLedger.pdCommitMapping d).seq h₃ ha₃ fun _ s₄ h₄ _ => h₄

/-- `vmm_remove_user_page` keeps the ledger balanced. -/
lemma vmmRemoveUserPage_ledger (h : LedgerInv lim s) (d : ℕ) (base : UInt32) :
    wp (vmmRemoveUserPage d base) (fun _ s' => LedgerInv lim s') (fun e _ => Halts e) s := by
  rw [vmmRemoveUserPage, wp_ite]
  refine ⟨fun _ => h, fun hbase => ?_⟩
  rw [not_or, not_lt, not_not] at hbase
  rw [wp_bind]
  refine (KeepsLedger.pdGetMapping d _).wp_of fun r s₁ hf₁ hl₁ => ?_
  have h₁ := h.of_eq hf₁ hl₁
  cases r with
  | error e => exact h₁
  | ok v =>
      dsimp only
      rw [wp_ite]
      refine ⟨fun _ => h₁, fun _ => ?_⟩
      rw [wp_bind]
      refine (KeepsLedger.pdBeginMapping d).wp_of fun r s₂ hf₂ hl₂ => ?_
      have h₂ := h₁.of_eq hf₂ hl₂
      rw [wp_bind]
      have hloop : KeepsLedger (removePages d (2 ^ 20 + 1) base 0) := by
        have hal : base.toNat % pageSize = 0 := by
          have := hbase.2
          rwa [isPageAligned, decide_eq_true_eq] at this
        refine KeepsLedger.removePages d _ base 0 hal (by decide) (.inr ?_)
        have := hbase.1
        simp only [userMemStart, pageSize] at this ⊢
        omega
      refine hloop.wp_of fun b s₃ hf₃ hl₃ => ?_
      have h₃ := h₂.of_eq hf₃ hl₃
      rw [wp_ite]
      constructor
      · intro _
        rw [wp_bind]
        exact (KeepsLedger.pdAbortMapping d).wp_of fun _ s₄ hf₄ hl₄ => h₃.of_eq hf₄ hl₄
      · intro _
        rw [wp_bind]
        refine wp_imp (forgetFrame_ledger h₃ d (removeFlags v)) fun r s₄ h₄ => ?_
        rcases h₄ with ⟨rfl, h₄, -⟩ | ⟨⟨n, rfl⟩, h₄⟩
        · dsimp only
          rw [wp_bind]
          exact (KeepsLedger.pdAbortMapping d).wp_of fun _ s₅ hf₅ hl₅ => h₄.of_eq hf₅ hl₅
        · dsimp only
          rw [wp_bind]
          refine wp_imp h₄ fun c s₅ hpost => ?_
          obtain ⟨hc, h₅⟩ := hpost
          subst hc
          rw [wp_ite]
          refine ⟨fun hneg => absurd hneg (lt_irrefl 0), fun _ => ?_⟩
          rw [wp_bind]
          exact (KeepsLedger.pdCommitMapping d).wp_of fun _ s₆ hf₆ hl₆ => h₅.of_eq hf₆ hl₆

/-- `vmm_deep_copy` keeps the ledger balanced. -/
lemma vmmDeepCopy_ledger (h : LedgerInv lim s) (dest src : ℕ) (garbage : ℕ → ℕ) :
    wp (vmmDeepCopy dest src garbage) (fun _ s' => LedgerInv lim s') (fun e _ => Halts e) s := by
  rw [vmmDeepCopy, wp_bind, wp_gets]
  refine withFrame_ledger h dest _ _ _ fun a s₁ h₁ ha₁ => ?_
  refine (KeepsLedger.deepCopyFrom dest src _ _ _).seq h₁ ha₁ fun r s₂ h₂ ha₂ => ?_
  rw [wp_ite]
  refine ⟨fun _ => ?_, fun _ => h₂⟩
  rw [wp_bind]
  exact wp_imp (undoFrame_ledger h₂ ha₂) fun _ s₃ h₃ => h₃

/-- The loop of `vmm_clear_user_space` deallocates the frames of the list. -/
lemma deallocFrames_spec : ∀ (frames : List ℕ) {s : Vm}, s.fm.Inv lim →
    wp (deallocFrames frames) (fun _ s' => s' = { s with fm := s'.fm } ∧ s'.fm.Inv lim ∧
      s'.extent = fun a => if a ∈ frames then none else s.extent a) (fun e _ => Halts e) s := by
  intro frames
  induction frames with
  | nil => exact fun h => ⟨rfl, h, by simp⟩
  | cons a frames ih =>
      intro s h
      rw [deallocFrames, wp_bind]
      refine wp_imp (liftFm_fmDealloc h a) fun _ s₁ ⟨hsame, hfm, hext, _⟩ => ?_
      refine wp_imp (ih hfm) fun _ s₂ ⟨hsame₂, hfm₂, hext₂⟩ =>
        ⟨hsame₂.trans (by rw [hsame]), hfm₂, ?_⟩
      funext b
      rw [hext₂, hext]
      by_cases hb : b = a
      · simp [hb]
      · simp [hb]

/-- `vmm_clear_user_space` keeps the ledger balanced. -/
lemma vmmClearUserSpace_ledger (h : LedgerInv lim s) (d : ℕ) :
    wp (vmmClearUserSpace d) (fun _ s' => LedgerInv lim s') (fun e _ => Halts e) s := by
  rw [vmmClearUserSpace, wp_bind]
  refine wp_imp (pdDeallocAllFrames_spec d) fun l s₀ ⟨hl, hf₀, hl₀⟩ => ?_
  subst hl
  have hfm₀ : s₀.fm.Inv lim := by rw [hf₀]; exact h.fm
  rw [wp_bind]
  have hloop := deallocFrames_spec ((s.lists d).map FrameMetadata.pAddr) hfm₀
  refine wp_imp hloop fun _ s₁ hs₁ => ?_
  have h₁ : LedgerInv lim s₁ := by
    obtain ⟨hsame, hfm, hext⟩ := hs₁
    refine ⟨hfm, ?_⟩
    rw [hext, extent_eq hf₀ rfl, lists_eq_of_fm hsame, hl₀]
    exact h.balanced.clear d
  rw [wp_bind]
  exact (KeepsLedger.pdClearUserSpace d).wp_of fun _ s₂ hf₂ hl₂ => h₁.of_eq hf₂ hl₂

/-- **Every operation keeps the ledger balanced**, and stops early for no reason
but a bad script of heap answers or the overflow check. -/
theorem perform_ledger (h : LedgerInv lim s) (op : VmOp) :
    wp op.perform (fun _ s' => LedgerInv lim s') (fun e _ => Halts e) s := by
  cases op with
  | mapSections d secs garbage =>
      rw [VmOp.perform, wp_bind]
      exact wp_imp (vmmMapSections_ledger h d secs garbage) fun _ _ h' => h'
  | newUserPage d base numPages =>
      rw [VmOp.perform, wp_bind]
      exact wp_imp (vmmNewUserPage_ledger h d base numPages) fun _ _ h' => h'
  | removeUserPage d base =>
      rw [VmOp.perform, wp_bind]
      exact wp_imp (vmmRemoveUserPage_ledger h d base) fun _ _ h' => h'
  | deepCopy dest src garbage =>
      rw [VmOp.perform, wp_bind]
      exact wp_imp (vmmDeepCopy_ledger h dest src garbage) fun _ _ h' => h'
  | clearUserSpace d =>
      rw [VmOp.perform, wp_bind]
      exact wp_imp (vmmClearUserSpace_ledger h d) fun _ _ h' => h'

/-! ### Whole runs -/

/-- The state after boot: user memory is free, and every page directory is as
`pd_init` leaves it. -/
structure VmInit (s : Vm) : Prop where
  fm : ∃ numBins numPages, 1 ≤ numBins ∧ numBins ≤ 31 ∧ 0 < numPages ∧
    userMemStart + numPages * pageSize ≤ 2 ^ 32 ∧
    s.fm = (FrameManager.fmRun numBins numPages []).2
  fresh : ∀ d, (s.pds d).pAddrList = [] ∧ (s.pds d).numPages = 0 ∧
    (s.pds d).batchEnabled = false ∧
    ∀ i, numKernelPde ≤ i → i < numEntries → (s.pds d).directory i = 0
  kernel : ∀ d i, i < numKernelPde → (s.pds d).directory i = (s.pds 0).directory i ∧
    entryPresent ((s.pds d).directory i) = true ∧
    s.live (removeFlags ((s.pds d).directory i)) = true

/-- The directory that `pd_init` makes: the page tables of the kernel direct map. -/
def bootDirectory (i : ℕ) : ℕ := if i < numKernelPde then 0x100003 + pageSize * i else 0

/-- The page tables of the kernel direct map, which leaves the page at `0` out. -/
def bootTable (t j : ℕ) : ℕ :=
  let page := numEntries * ((t - 0x100000) / pageSize) + j
  if page = 0 then 0 else addFlags (pageSize * page) 0x103

/-- A state after boot, with `numPages` free user pages. -/
def bootVm (numBins numPages : ℕ) : Vm where
  pds _ := ⟨bootDirectory, 0, [], [], false, idle_nil⟩
  pt := bootTable
  live t := decide (t % pageSize = 0 ∧ 0x100000 ≤ t ∧ t < 0x104000)
  fm := (FrameManager.fmRun numBins numPages []).2
  heap := []

/-- The kernel entries of the first directory are present, and lead to its tables. -/
lemma bootDirectory_kernel : ∀ i < numKernelPde, entryPresent (bootDirectory i) = true ∧
    removeFlags (bootDirectory i) = 0x100000 + pageSize * i := by decide

lemma bootVm_init {numBins numPages : ℕ} (h1 : 1 ≤ numBins) (h2 : numBins ≤ 31)
    (hpos : 0 < numPages) (hfit : userMemStart + numPages * pageSize ≤ 2 ^ 32) :
    VmInit (bootVm numBins numPages) where
  fm := ⟨numBins, numPages, h1, h2, hpos, hfit, rfl⟩
  fresh d := ⟨rfl, rfl, rfl, fun i hi _ => if_neg (not_lt.mpr hi)⟩
  kernel d i hi := by
    obtain ⟨hpre, htab⟩ := bootDirectory_kernel i hi
    refine ⟨rfl, hpre, ?_⟩
    change decide _ = true
    change removeFlags (((bootVm numBins numPages).pds d).directory i) = _ at htab
    rw [decide_eq_true_eq, htab]
    simp only [pageSize, numKernelPde] at hi ⊢
    omega

/-- A step: an operation with the answers the heap gives during it, or the contents
of memory that is not in use change. -/
inductive VmStep where
  | call (op : VmOp) (heap : List (Option ℕ))
  | scribble (memory : ℕ → ℕ → ℕ)

/-- The state after other users of the heap wrote to memory that is not in use. -/
def Vm.scribble (s : Vm) (memory : ℕ → ℕ → ℕ) : Vm :=
  { s with pt := fun t => if s.live t then s.pt t else memory t }

/-- The runs of the virtual memory manager. -/
def vmMachine : Machine Vm VmStep where
  init := VmInit
  step s a s' :=
    match a with
    | .call op heap => op.perform { s with heap := heap } = (.ok (), s')
    | .scribble memory => s' = s.scribble memory

/-- The allocated frames are exactly the recorded ones, each recorded once and by
one page directory. -/
structure Conserved (s : Vm) : Prop where
  allocated_iff : ∀ a, htGet s.fm.allocated a ≠ none ↔
    ∃ d, a ∈ (s.pds d).pAddrList.map FrameMetadata.pAddr
  nodup : ∀ d, ((s.pds d).pAddrList.map FrameMetadata.pAddr).Nodup
  disjoint : ∀ {d d' a}, a ∈ (s.pds d).pAddrList.map FrameMetadata.pAddr →
    a ∈ (s.pds d').pAddrList.map FrameMetadata.pAddr → d = d'

/-- A balanced ledger says that the frames are conserved. -/
lemma LedgerInv.conserved (h : LedgerInv lim s) : Conserved s where
  allocated_iff a := by
    have hiff : htGet s.fm.allocated a ≠ none ↔ s.extent a ≠ none :=
      not_congr (View.extent_eq_none_iff h.fm.ok a).symm
    rw [hiff]
    constructor
    · intro ha
      obtain ⟨d, m, hm, rfl⟩ := h.balanced.owner ha
      exact ⟨d, List.mem_map_of_mem hm⟩
    · rintro ⟨d, ha⟩
      obtain ⟨m, hm, rfl⟩ := List.mem_map.mp ha
      exact h.extent_ne_none ⟨m, hm, rfl⟩
  nodup := h.balanced.nodup
  disjoint ha ha' := by
    obtain ⟨m, hm, rfl⟩ := List.mem_map.mp ha
    obtain ⟨m', hm', heq⟩ := List.mem_map.mp ha'
    exact h.balanced.disjoint hm hm' heq.symm

/-- After boot the frame manager is in order and nothing is allocated. -/
lemma VmInit.fm_inv (h : VmInit s) : ∃ lim, s.fm.Inv lim ∧ s.extent = fun _ => none := by
  obtain ⟨numBins, numPages, h1, h2, hpos, hfit, hfm⟩ := h.fm
  rw [mul_comm] at hfit
  obtain ⟨r, fm, hrun, -, hinv, hext⟩ :=
    wp_returns (FrameManager.fmInitUserSpace_spec h1 h2 hpos hfit)
  have hfm' : s.fm = fm := by
    rw [hfm, FrameManager.fmRun]
    change (seq (fmInitUserSpace numPages) _ (fmEmpty numBins)).2 = fm
    rw [seq, hrun]
    rfl
  exact ⟨_, hfm' ▸ hinv, by rw [Vm.extent, hfm', hext]⟩

/-- After boot the ledger is balanced: nothing is allocated and nothing recorded. -/
lemma VmInit.ledger (h : VmInit s) : ∃ lim, LedgerInv lim s := by
  obtain ⟨lim, hinv, hext⟩ := h.fm_inv
  have hlists : s.lists = fun _ => [] := funext fun d => (h.fresh d).1
  exact ⟨lim, hinv, by rw [hext, hlists]; exact ⟨by simp, by simp, by simp, by simp⟩⟩

/-- Every reachable state has a balanced ledger. -/
lemma ledger_of_reachable (h : vmMachine.Reachable s) : ∃ lim, LedgerInv lim s := by
  refine Machine.Reachable.inv (I := fun s => ∃ lim, LedgerInv lim s)
    (fun s hs => VmInit.ledger hs) ?_ h
  rintro s a s' ⟨lim, hl⟩ hstep
  cases a with
  | call op heap =>
      have hl' : LedgerInv lim { s with heap := heap } := hl.of_eq rfl rfl
      have hrun : op.perform { s with heap := heap } = (.ok (), s') := hstep
      exact ⟨lim, wp_ok (Q := fun _ s' => LedgerInv lim s') (perform_ledger hl' op) hrun⟩
  | scribble memory =>
      obtain rfl : s' = s.scribble memory := hstep
      exact ⟨lim, hl.of_eq rfl rfl⟩

/-- **Frames are conserved**: after every sequence of operations, whatever the heap
answers, the allocated frames are exactly the recorded ones. Every further operation
returns, but for a script of answers that no heap gives, or the overflow check. -/
theorem memory_conserved (h : vmMachine.Reachable s) :
    Conserved s ∧ ∀ (op : VmOp) (heap : List (Option ℕ)),
      (∃ s', op.perform { s with heap := heap } = (.ok (), s')) ∨
      ∃ e s', op.perform { s with heap := heap } = (.error e, s') ∧ Halts e := by
  obtain ⟨lim, hl⟩ := ledger_of_reachable h
  refine ⟨hl.conserved, fun op heap => ?_⟩
  have hl' : LedgerInv lim { s with heap := heap } := hl.of_eq rfl rfl
  have hop := perform_ledger hl' op
  unfold wp at hop
  rcases hrun : op.perform { s with heap := heap } with ⟨e | a, s'⟩
  · rw [hrun] at hop
    exact .inr ⟨e, s', rfl, hop⟩
  · exact .inl ⟨s', rfl⟩

end ShrekOS
