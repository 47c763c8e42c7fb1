/-
The virtual memory in the runs in which the heap never fails.

* `VmStep.Sound`: the heap answers the step, and the flags of its sections are flags;
* `Orderly`: the ledger is balanced, the page tables are apart, and no batch is left over;
* `perform_settled`: every operation keeps the page tables apart, and ends its batch;
* `orderly_of_sound`: **every state of a sound run is orderly**, also where processes are
  not isolated.
-/
import ShrekOS.Mem.Fork
import ShrekOS.Mem.IsolationRuns

namespace ShrekOS

open Kit Kit.Cmd Vm

variable {lim : ℕ} {s s' : Vm}

/-- The heap answers every request, and the flags of the sections are flags. -/
def VmStep.Sound (a : VmStep) : Prop :=
  a.HeapSucceeds ∧ ∀ d secs garbage heap, a = .call (.mapSections d secs garbage) heap →
    ∀ ms ∈ secs, ms.pteF.toNat < 2 ^ 12 ∧ ms.pdeF.toNat < 2 ^ 12

/-- The ledger is balanced, the page tables are apart, and no batch is left over. -/
structure Orderly (lim : ℕ) (s : Vm) : Prop extends LedgerInv lim s where
  tables : Tables s.dirs s.live
  idle : ∀ e, (s.pds e).batchEnabled = false

/-- With a heap that answers, an orderly state is settled. -/
lemma Orderly.settled (h : Orderly lim s) {heap : List (Option ℕ)} (hheap : ∀ r ∈ heap, r ≠ none) :
    Settled { s with heap := heap } := ⟨h.tables, hheap, h.idle⟩

lemma Orderly.ledger (h : Orderly lim s) (heap : List (Option ℕ)) :
    LedgerInv lim { s with heap := heap } := h.toLedgerInv.of_eq rfl rfl

/-! ### The operations -/

lemma vmmMapSections_settled (h : LedgerInv lim s) (hs : Settled s) (d : ℕ) {secs : List MemSection}
    (hflags : ∀ ms ∈ secs, ms.pteF.toNat < 2 ^ 12 ∧ ms.pdeF.toNat < 2 ^ 12)
    (garbage : UInt32 × UInt32) :
    wp (vmmMapSections d secs garbage) (fun _ s' => Settled s') (fun e _ => Halts e) s := by
  rw [vmmMapSections, wp_ite]
  refine ⟨fun _ => hs, fun hne => ?_⟩
  rw [wp_ite]
  refine ⟨fun _ => hs, fun _ => ?_⟩
  refine withFrame_granted h hs d _ _ _ (fun _ _ hs' _ _ _ _ _ => hs') fun a s₁ hg => ?_
  rw [wp_bind]
  refine wp_imp (pdBeginMapping_fill hg.settled d) fun r s₂ hpost => ?_
  obtain ⟨hr, hf₂, ht₂⟩ := hpost
  subst hr
  rw [wp_ite]
  refine ⟨fun hneg => absurd hneg (lt_irrefl 0), fun _ => ?_⟩
  rw [wp_bind]
  refine wp_imp (mapPages_fill hne hflags (pageAlignDown_mod _) hg.aligned hg.le _ le_rfl hf₂
    (by simp [ht₂])) fun r s₃ hpost => ?_
  obtain ⟨hr, hf₃, _⟩ := hpost
  subst hr
  rw [wp_ite]
  refine ⟨fun hneg => absurd hneg (lt_irrefl 0), fun _ => ?_⟩
  rw [wp_bind]
  exact wp_imp (pdCommitMapping_spec hf₃) fun _ _ hfin => hfin.1

lemma vmmNewUserPage_settled (h : LedgerInv lim s) (hs : Settled s) (d : ℕ)
    (base numPages : UInt32) :
    wp (vmmNewUserPage d base numPages) (fun _ s' => Settled s') (fun e _ => Halts e) s := by
  rw [vmmNewUserPage, wp_ite]
  refine ⟨fun _ => hs, fun hnum => ?_⟩
  rw [wp_ite]
  refine ⟨fun _ => hs, fun _ => ?_⟩
  rw [wp_bind]
  refine wp_imp (anyMapped_same d _ _ s) fun b s₀ hs₀ => ?_
  obtain rfl : s₀ = s := hs₀
  rw [wp_ite]
  refine ⟨fun _ => hs, fun _ => ?_⟩
  refine withFrame_granted h hs d _ _ _ (fun _ _ hs' _ _ _ _ _ => hs') fun a s₁ hg => ?_
  rw [wp_bind]
  refine wp_imp (wp_and (KeepsLedger.pdBeginMapping d s₁) (pdBeginMapping_fill hg.settled d))
    fun r s₂ hpost => ?_
  obtain ⟨hl₂, hr, hf₂, ht₂⟩ := hpost
  subst hr
  rw [wp_ite]
  refine ⟨fun hneg => absurd hneg (lt_irrefl 0), fun _ => ?_⟩
  rw [wp_bind]
  by_cases hv : base.toNat % pageSize = 0
  · refine wp_imp (mapUserPages_fill hv hg.aligned hg.le _ le_rfl hf₂ (by simp [ht₂]))
      fun r s₃ hpost => ?_
    obtain ⟨hr, hf₃, _⟩ := hpost
    subst hr
    rw [wp_ite]
    refine ⟨fun hneg => absurd hneg (lt_irrefl 0), fun _ => ?_⟩
    rw [wp_bind]
    exact wp_imp (pdCommitMapping_spec hf₃) fun _ _ hfin => hfin.1
  · refine wp_imp (mapUserPages_unaligned hv hg.pos) fun r s₃ hpost => ?_
    obtain ⟨hr, hs₃⟩ := hpost
    subst hs₃
    rw [wp_ite]
    refine ⟨fun _ => ?_, fun hge => absurd hr hge⟩
    rw [wp_bind]
    refine wp_imp (wp_and (KeepsLedger.pdAbortMapping d s₃)
      (pdAbortMapping_settled hf₂ (by simp [ht₂]))) fun _ s₄ hpost => ?_
    obtain ⟨hl₄, hs₄, _⟩ := hpost
    have hledger : s₄.ledger = s₁.ledger := hl₄.trans hl₂
    have hlists : s₄.lists = s₁.lists := congrArg (fun l => l.2.1) hledger
    have hinv₄ : LedgerInv lim s₄ := hg.ledger.of_eq (congrArg Prod.fst hledger) hlists
    have hmem : ∃ m ∈ s₄.lists d, m.pAddr = a := by
      rw [hlists, hg.lists, Function.update_self]
      exact ⟨_, .head _, rfl⟩
    rw [wp_bind]
    refine wp_imp (forgetFrame_space hinv₄ hmem) fun _ s₅ hpost => ?_
    obtain ⟨_, hdealloc⟩ := hpost
    rw [wp_bind]
    refine wp_imp hdealloc fun _ s₆ hpost => ?_
    obtain ⟨_, _, hsp, hheap, _⟩ := hpost
    exact hsp.settled hs₄ fun r hr => hs₄.generous r (hheap ▸ hr)

lemma vmmRemoveUserPage_settled (h : LedgerInv lim s) (hs : Settled s) (d : ℕ) (base : UInt32) :
    wlp (vmmRemoveUserPage d base) (fun _ s' => Settled s') s := by
  rw [wlp, vmmRemoveUserPage, wp_ite]
  refine ⟨fun _ => hs, fun hbase => ?_⟩
  rw [not_or, not_lt, not_not, isPageAligned, decide_eq_true_eq] at hbase
  obtain ⟨hlow, hal⟩ := hbase
  rw [wp_bind]
  refine pdGetMapping_read base.toNat_lt (fun v hread => ?_) fun e _ => hs
  dsimp only
  rw [wp_ite]
  refine ⟨fun _ => hs, fun _ => ?_⟩
  have hkeep : wp (pdBeginMapping d) (fun _ s' => s'.ledger = s.ledger) (fun _ _ => True) s :=
    wlp_of_wp (KeepsLedger.pdBeginMapping d s)
  rw [wp_bind]
  refine wp_imp (wp_and (pdBeginMapping_fill hs d) hkeep) fun r s₁ hpost => ?_
  obtain ⟨⟨_, hf₁, ht₁⟩, hl₁⟩ := hpost
  rw [wp_bind]
  have hloop := KeepsLedger.removePages d (2 ^ 20 + 1) base 0 hal (by decide)
    (.inr (by simp only [userMemStart, pageSize] at *; omega)) s₁
  refine wp_mono (wp_both hloop (removePages_fill (2 ^ 20 + 1) 0 hf₁ hal (.inr hlow)
    (by simp [ht₁]))) (fun b s₂ hpost => ?_) fun _ _ _ => trivial
  obtain ⟨hl₂, hf₂, _, hwipe, _⟩ := hpost
  have hledger : s₂.ledger = s.ledger := hl₂.trans hl₁
  have hlists : s₂.lists = s.lists := congrArg (fun l => l.2.1) hledger
  have hinv : LedgerInv lim s₂ := h.of_eq (congrArg Prod.fst hledger) hlists
  have habort : ∀ r : ℤ, wp (do pdAbortMapping d; pure r) (fun _ s' => Settled s')
      (fun _ _ => True) s₂ := by
    intro r
    rw [wp_bind]
    exact wp_imp (pdAbortMapping_settled hf₂ fun t ht => (hwipe t ht).2) fun _ _ hfin => hfin.1
  rw [wp_ite]
  refine ⟨fun _ => habort _, fun _ => ?_⟩
  rw [wp_bind]
  by_cases hrec : ∃ m ∈ s₂.lists d, m.pAddr = removeFlags v
  · refine wp_imp (forgetFrame_space hinv hrec) fun r s₃ hpost => ?_
    obtain ⟨⟨size, hr⟩, hdealloc⟩ := hpost
    subst hr
    dsimp only
    rw [wp_bind]
    refine wp_imp hdealloc fun c s₄ hpost => ?_
    obtain ⟨hc, _, hsp, hheap, _⟩ := hpost
    subst hc
    rw [wp_ite]
    refine ⟨fun hneg => absurd hneg (lt_irrefl 0), fun _ => ?_⟩
    have hf₄ := hsp.filling hf₂ fun r hr => hf₂.generous r (hheap ▸ hr)
    rw [wp_bind]
    exact wp_imp (pdCommitMapping_spec hf₄) fun _ _ hfin => hfin.1
  · refine wp_imp (pdDeallocFrame_absent hrec) fun r s₃ hpost => ?_
    obtain ⟨hr, hs₃⟩ := hpost
    subst hr hs₃
    exact habort _

lemma vmmDeepCopy_settled (h : LedgerInv lim s) (hs : Settled s) (dest src : ℕ) (garbage : ℕ → ℕ) :
    wp (vmmDeepCopy dest src garbage) (fun _ s' => Settled s') (fun e _ => Halts e) s := by
  rw [vmmDeepCopy, wp_bind, wp_gets]
  refine withFrame_granted h hs dest _ _ _ (fun _ _ hs' _ _ _ _ _ => hs') fun a s₁ hg => ?_
  rw [wp_bind]
  refine wp_imp (pdDeepCopy_cloned dest src hg.settled hg.aligned hg.lt garbage)
    fun r s₂ hpost => ?_
  obtain ⟨hr, hc⟩ := hpost
  subst hr
  rw [wp_ite]
  exact ⟨fun hneg => absurd hneg (lt_irrefl 0), fun _ => hc.settled⟩

lemma vmmClearUserSpace_settled (h : LedgerInv lim s) (hs : Settled s) (d : ℕ) :
    wp (vmmClearUserSpace d) (fun _ s' => Settled s') (fun e _ => Halts e) s := by
  rw [vmmClearUserSpace, wp_bind, pdDeallocAllFrames, wp_bind, wp_gets, wp_bind, wp_setPd, wp_pure,
    wp_bind]
  set s₁ : Vm := { s with
    pds := Function.update s.pds d { s.pds d with numPages := 0, pAddrList := [] } }
  have hsp₁ : SameSpace s s₁ := .setPd s.fm s.heap rfl rfl rfl
  have hfm₁ : s₁.fm.Inv lim := h.fm
  refine wp_imp (deallocFrames_spec ((s.lists d).map FrameMetadata.pAddr) hfm₁)
    fun _ s₂ hpost => ?_
  obtain ⟨hsame, _, _⟩ := hpost
  have hg₂ : Generous s₂ := by
    rw [hsame]
    exact hs.generous
  rw [wp_bind]
  exact wp_imp (pdClearUserSpace_settled ((hsp₁.trans (.of_fm hsame)).settled hs hg₂) d)
    fun _ _ hfin => hfin.1

/-- **Every operation keeps the page tables apart and ends its batch.** -/
lemma perform_settled (h : LedgerInv lim s) (hs : Settled s) {op : VmOp}
    (hflags : ∀ d secs garbage, op = .mapSections d secs garbage →
      ∀ ms ∈ secs, ms.pteF.toNat < 2 ^ 12 ∧ ms.pdeF.toNat < 2 ^ 12) :
    wlp op.perform (fun _ s' => Settled s') s := by
  cases op with
  | mapSections d secs garbage =>
      rw [VmOp.perform, wlp, wp_bind]
      exact wlp_of_wp (vmmMapSections_settled h hs d (hflags d secs garbage rfl) garbage)
  | newUserPage d base numPages =>
      rw [VmOp.perform, wlp, wp_bind]
      exact wlp_of_wp (vmmNewUserPage_settled h hs d base numPages)
  | removeUserPage d base =>
      rw [VmOp.perform, wlp, wp_bind]
      exact vmmRemoveUserPage_settled h hs d base
  | deepCopy dest src garbage =>
      rw [VmOp.perform, wlp, wp_bind]
      exact wlp_of_wp (vmmDeepCopy_settled h hs dest src garbage)
  | clearUserSpace d =>
      rw [VmOp.perform, wlp, wp_bind]
      exact wlp_of_wp (vmmClearUserSpace_settled h hs d)

/-! ### Runs -/

/-- A sound step keeps the state orderly. -/
lemma Orderly.step (h : Orderly lim s) {a : VmStep} (ha : a.Sound)
    (hstep : vmMachine.step s a s') : Orderly lim s' := by
  cases a with
  | call op heap =>
      have hrun : op.perform { s with heap := heap } = (.ok (), s') := hstep
      have hledger : LedgerInv lim s' :=
        wp_ok (Q := fun _ s' => LedgerInv lim s') (perform_ledger (h.ledger heap) op) hrun
      have hsettled : Settled s' := by
        refine wp_ok (Q := fun _ s' => Settled s') (perform_settled (h.ledger heap)
          (h.settled ha.1) fun d secs garbage hop => ?_) hrun
        exact ha.2 d secs garbage heap (by rw [hop])
      exact ⟨hledger, hsettled.tables, hsettled.idle⟩
  | scribble memory =>
      obtain rfl : s' = s.scribble memory := hstep
      exact ⟨h.toLedgerInv.of_eq rfl rfl, h.tables, h.idle⟩

/-- **Every state of a sound run is orderly.** -/
theorem orderly_of_sound (h : vmMachine.Reach (fun _ a => a.Sound) s) : ∃ lim, Orderly lim s := by
  refine Machine.Reach.inv (I := fun s => ∃ lim, Orderly lim s) (fun s hs => ?_) ?_ h
  · obtain ⟨lim, hg⟩ := VmInit.guarded hs
    exact ⟨lim, hg.secure.toLedgerInv, hg.tables, hg.idle⟩
  · rintro s a s' ⟨lim, ho⟩ ha hstep
    exact ⟨lim, ho.step ha hstep⟩

end ShrekOS
