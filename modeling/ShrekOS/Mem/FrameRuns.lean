/-
Whole runs of the frame manager: initialisation and any calls after it.

* `fmInitUserSpace_spec`: user memory is cut into deallocated frames;
* `FmOp`, `fmRun`: any list of calls of `fm_alloc` and `fm_dealloc`;
* `WellFormed`: what the structures look like between calls, and
  `Inv.wellFormed`: the invariant says that much;
* `fmRun_wellFormed`: **the main result**: every run returns, without a failed
  `ASSERT` or `panic`, and leaves the structures well formed.
-/
import ShrekOS.Mem.FrameInvariant

namespace ShrekOS

open Kit Kit.Cmd Kit.Buddy

namespace FrameManager

variable {lim : ℕ} {fm : FrameManager}

/-! ### Initialisation -/

/-- Nothing is deallocated at the end of user memory. -/
lemma Inv.lim_free (h : fm.Inv lim) : fm.view.table .dealloc lim = none := by
  by_contra hk
  obtain ⟨m, hm⟩ := Option.ne_none_iff_exists'.mp hk
  obtain ⟨q, g, -, hq, hg, hkey⟩ := h.ok.of_table hm
  rw [Frame.key, if_neg (by simp [hg])] at hkey
  have hend := h.end_le hq
  have hpos : 0 < pageSize * 2 ^ g.i := by have := pageSize_pos; positivity
  omega

/-- A new frame takes the addresses from the limit on. -/
lemma newFrame_spec (h : fm.Inv lim) {i : ℕ} (hi : i < fm.numBins) (hbase : userMemStart ≤ lim)
    (hal : pageSize ∣ lim) (hfit : lim + pageSize * 2 ^ i ≤ 2 ^ 32) :
    wp (newFrame i lim) (fun _ fm' => fm'.Inv (lim + pageSize * 2 ^ i) ∧
      fm'.numBins = fm.numBins ∧ fm'.view.extent = fm.view.extent) (fun _ _ => False) fm := by
  have hput := (htGet_htPut (t := fm.deallocated) _ h.lim_free (fm.nextPtr + 1)).2
  have hnot := fun j => h.fresh_not_mem (n := fm.nextPtr + 1) (Nat.le_add_right _ 1) j
  simp only [newFrame, wp_bind, wp_malloc, wp_frameInit, wp_llNodeInit, wp_llLinkNodeLast,
    wp_putDeallocated, wp_pure, hi, hnot, not_false_eq_true, implies_true, true_implies,
    not_true_eq_false, IsEmpty.forall_iff, and_true, true_and]
  have hf0 : fm.view.frames fm.nextPtr = none := h.fresh_frame le_rfl
  have hn1 : fm.view.nodes (fm.nextPtr + 1) = none := h.fresh_node (Nat.le_add_right _ 1)
  have hok := h.ok.insert (n := fm.nextPtr + 1) (p := fm.nextPtr)
    (f := ⟨lim, 2 ^ i, .dealloc, i, none, none⟩) hn1 hf0 (by simpa [Frame.key] using h.lim_free)
    rfl
  have hext := View.extent_insert (n := fm.nextPtr + 1) (p := fm.nextPtr)
    (f := ⟨lim, 2 ^ i, .dealloc, i, none, none⟩) h.ok hn1 hf0 (by simp)
  -- the invariant of any frame manager with one more frame, which begins at `lim`
  have hall : ∀ {fm' : FrameManager}, fm'.view = fm.view.insert (fm.nextPtr + 1) fm.nextPtr
        ⟨lim, 2 ^ i, .dealloc, i, none, none⟩ → fm'.numBins = fm.numBins →
      fm'.nextPtr = fm.nextPtr + 1 + 1 →
      fm'.Inv (lim + pageSize * 2 ^ i) ∧ fm'.view.extent = fm.view.extent := by
    intro fm' hview hbins hnext
    have hfr : fm'.frames = Function.update fm.frames fm.nextPtr
        (some ⟨lim, 2 ^ i, .dealloc, i, none, none⟩) := congrArg View.frames hview
    have hnd : fm'.nodes = Function.update fm.nodes (fm.nextPtr + 1) (some fm.nextPtr) :=
      congrArg View.nodes hview
    refine ⟨⟨⟨hbins ▸ h.bins_pos, hbins ▸ h.bins_le, hview ▸ hok, ?_, ?_⟩, hfit, ?_⟩,
      by rw [hview, hext]⟩
    · intro q hq
      rw [hnext] at hq
      have hq0 : q ≠ fm.nextPtr := ne_of_add_le (k := 2) (j := 0) hq (by omega)
      rw [hfr, Function.update_of_ne hq0, h.fresh_frame (le_trans (Nat.le_add_right _ 2) hq)]
    · intro m hm
      rw [hnext] at hm
      rw [hnd, Function.update_of_ne (ne_of_add_le (k := 2) (j := 1) hm (by omega)),
        h.fresh_node (le_trans (Nat.le_add_right _ 2) hm)]
    · rw [hbins]
      -- the new block continues the managed memory
      refine h.forest.grow pageSize_pos (p := fm.nextPtr) (k := i) .free hbase hal hi
        (by simp) (congrArg (Option.map _) hf0) ?_ ?_
      · exact (blocks_of_some (f := ⟨lim, 2 ^ i, .dealloc, i, none, none⟩)
          (by rw [hfr, Function.update_self])).trans rfl
      · intro z hz
        rw [blocks, hfr, Function.update_of_ne hz, blocks]
  -- what the command writes is that frame, entered everywhere
  have hview : ∀ {fm' : FrameManager},
      fm'.nodes = Function.update fm.nodes (fm.nextPtr + 1) (some fm.nextPtr) →
      fm'.frames = Function.update fm.frames fm.nextPtr
        (some ⟨lim, 2 ^ i, .dealloc, i, none, none⟩) →
      htGet fm'.allocated = htGet fm.allocated →
      htGet fm'.deallocated = Function.update (htGet fm.deallocated) lim (some (fm.nextPtr + 1)) →
      htGet fm'.parents = htGet fm.parents →
      fm'.frameBins = Function.update fm.frameBins i (fm.frameBins i ++ [fm.nextPtr + 1]) →
      fm'.view = fm.view.insert (fm.nextPtr + 1) fm.nextPtr
        ⟨lim, 2 ^ i, .dealloc, i, none, none⟩ := by
    intro fm' e1 e2 e3 e4 e5 e6
    refine view_eq ?_ ?_ ?_ ?_ ?_ ?_
    · rw [e1]; rfl
    · rw [e2]; rfl
    · simp [e3, view]
    · simp [e4, view, Frame.key]
    · simp [e5, view]
    · simp [e6, View.insert, view, Frame.binOf]
  refine hall (hview ?_ ?_ ?_ hput ?_ ?_) ?_ ?_ <;> rfl

/-- The loop on one bin leaves fewer pages than a frame of it has. -/
lemma initBin_spec {L : ℕ} (hL : L ≤ 2 ^ 32) (i : ℕ) : ∀ (fuel : ℕ) {fm : FrameManager}
    {lim remaining : ℕ}, fm.Inv lim → i < fm.numBins → userMemStart ≤ lim → pageSize ∣ lim →
    lim + pageSize * remaining = L → remaining < fuel →
    wp (initBin fuel i remaining (lim % 2 ^ 32)) (fun r fm' => r.1 < 2 ^ i ∧ r.1 ≤ remaining ∧
      fm'.numBins = fm.numBins ∧ fm'.view.extent = fm.view.extent ∧
      ∃ lim', fm'.Inv lim' ∧ userMemStart ≤ lim' ∧ pageSize ∣ lim' ∧
        lim' + pageSize * r.1 = L ∧ r.2 = lim' % 2 ^ 32) (fun _ _ => False) fm := by
  intro fuel
  induction fuel with
  | zero =>
      intro fm lim remaining _ _ _ _ _ hfuel
      omega
  | succ fuel ih =>
      intro fm lim remaining h hi hbase hal hrem hfuel
      rw [initBin, wp_ite]
      constructor
      · intro hge
        have hsplit : pageSize * remaining = pageSize * 2 ^ i + pageSize * (remaining - 2 ^ i) := by
          rw [← mul_add, Nat.add_sub_cancel' hge]
        have hpos : 0 < pageSize * 2 ^ i := by have := pageSize_pos; positivity
        have hpos' : 0 < 2 ^ i := by positivity
        have hlt : lim < 2 ^ 32 := by omega
        rw [wp_bind, Nat.mod_eq_of_lt hlt]
        refine wp_imp (newFrame_spec h hi hbase hal (by omega)) fun _ fm₁ ⟨h₁, hb₁, he₁⟩ => ?_
        refine wp_imp (ih h₁ (hb₁ ▸ hi) (by omega)
          ((Nat.dvd_add_right hal).mpr (Nat.dvd_mul_right _ _)) (by omega) (by omega))
          fun r fm₂ ⟨h2, hle, hb₂, he₂, h3⟩ => ?_
        exact ⟨h2, by omega, hb₂.trans hb₁, he₂.trans he₁, h3⟩
      · intro hlt
        exact ⟨not_le.mp hlt, le_rfl, rfl, rfl, lim, h, hbase, hal, hrem, rfl⟩

/-- The loop over the bins gives out every page. -/
lemma initBins_spec {L fuel : ℕ} (hL : L ≤ 2 ^ 32) : ∀ (i : ℕ) {fm : FrameManager}
    {lim remaining : ℕ}, fm.Inv lim → i ≤ fm.numBins → userMemStart ≤ lim → pageSize ∣ lim →
    lim + pageSize * remaining = L → remaining < fuel → (i = 0 → remaining = 0) →
    wp (initBins fuel i remaining (lim % 2 ^ 32)) (fun _ fm' => fm'.Inv L ∧
      fm'.numBins = fm.numBins ∧ fm'.view.extent = fm.view.extent) (fun _ _ => False) fm := by
  intro i
  induction i with
  | zero =>
      intro fm lim remaining h _ _ _ hrem _ h0
      rw [h0 rfl, mul_zero, add_zero] at hrem
      exact ⟨hrem ▸ h, rfl, rfl⟩
  | succ i ih =>
      intro fm lim remaining h hi hbase hal hrem hfuel _
      rw [initBins, wp_bind]
      refine wp_imp (initBin_spec hL i fuel h (by omega) hbase hal hrem hfuel)
        fun ⟨remaining', pAddr'⟩ fm₁ ⟨hr, hle, hb₁, he₁, lim', h', hbase', hal', hrem', hp⟩ => ?_
      dsimp only at hr hle hrem' hp
      subst hp
      refine wp_imp (ih h' (hb₁ ▸ by omega) hbase' hal' hrem' (by omega) ?_)
        fun _ fm₂ ⟨h₂, hb₂, he₂⟩ => ⟨h₂, hb₂.trans hb₁, he₂.trans he₁⟩
      rintro rfl
      omega

/-- An empty frame manager manages nothing yet. -/
lemma inv_fmEmpty {numBins : ℕ} (h1 : 1 ≤ numBins) (h2 : numBins ≤ 31) :
    (fmEmpty numBins).Inv userMemStart where
  bins_pos := h1
  bins_le := h2
  lim_le := by decide
  ok :=
    { inj := by simp [view, fmEmpty]
      live := by simp [view, fmEmpty]
      owned := by simp [view, fmEmpty]
      pages := by simp [view, fmEmpty]
      registered := by
        intro st k n
        cases st <;> simp [view, fmEmpty, View.content]
      listed := ⟨by simp [view, fmEmpty], by simp [view, fmEmpty, View.content]⟩ }
  fresh_frame := by simp [fmEmpty]
  fresh_node := by simp [fmEmpty]
  forest := Forest.empty

lemma extent_fmEmpty (numBins a : ℕ) : (fmEmpty numBins).view.extent a = none := by
  simp [View.extent, view, fmEmpty]

/-- **Initialisation**: user memory of `numPages` pages is cut into frames, none
of them allocated. -/
theorem fmInitUserSpace_spec {numBins numPages : ℕ} (h1 : 1 ≤ numBins) (h2 : numBins ≤ 31)
    (hpos : 0 < numPages) (hfit : userMemStart + pageSize * numPages ≤ 2 ^ 32) :
    wp (fmInitUserSpace numPages) (fun r fm => r = 0 ∧
      fm.Inv (userMemStart + pageSize * numPages) ∧ fm.view.extent = fun _ => none)
      (fun _ _ => False) (fmEmpty numBins) := by
  rw [fmInitUserSpace, wp_ite]
  refine ⟨fun h0 => absurd h0 hpos.ne', fun _ => ?_⟩
  rw [wp_bind, wp_gets, wp_bind]
  have hstart : userMemStart = userMemStart % 2 ^ 32 := by decide
  have hbins : (fmEmpty numBins).numBins = numBins := rfl
  rw [hbins, hstart]
  refine wp_imp (initBins_spec hfit numBins (inv_fmEmpty h1 h2) le_rfl le_rfl (by decide) rfl
    (by omega) (by omega)) fun _ fm ⟨h, _, he⟩ => ⟨rfl, h, ?_⟩
  rw [he]
  exact funext (extent_fmEmpty numBins)

/-! ### What the structures look like -/

/-- The frame at `p` is in bin `i`. -/
def InBin (fm : FrameManager) (i : ℕ) (p : Ptr) : Prop :=
  ∃ n ∈ fm.frameBins i, fm.nodes n = some p

/-- The frame at `p` is in a table under a key. -/
def InTable (fm : FrameManager) (t : Ht ℕ Ptr) (key : ℕ) (p : Ptr) : Prop :=
  ∃ n, htGet t key = some n ∧ fm.nodes n = some p

/-- The structures between calls, for user memory that ends at `lim`. -/
structure WellFormed (lim : ℕ) (fm : FrameManager) : Prop where
  /-- the leaf frames cover user memory and nothing else … -/
  cover : ∀ x, (userMemStart ≤ x ∧ x < lim) ↔ ∃ p f, fm.frames p = some f ∧
    f.status ≠ .parent ∧ f.addr ≤ x ∧ x < f.addr + pageSize * f.numPages
  /-- … and no address twice -/
  disjoint : ∀ {p q f g x}, fm.frames p = some f → fm.frames q = some g → f.status ≠ .parent →
    g.status ≠ .parent → f.addr ≤ x → x < f.addr + pageSize * f.numPages → g.addr ≤ x →
    x < g.addr + pageSize * g.numPages → p = q
  size : ∀ {p f}, fm.frames p = some f → f.i < fm.numBins ∧ f.numPages = 2 ^ f.i
  bin_iff : ∀ {p f} i, fm.frames p = some f →
    (fm.InBin i p ↔ f.status = .dealloc ∧ f.i = i)
  bin_nodup : ∀ i, (fm.frameBins i).Nodup
  deallocated_iff : ∀ {p f} key, fm.frames p = some f →
    (fm.InTable fm.deallocated key p ↔ f.status = .dealloc ∧ f.addr = key)
  allocated_iff : ∀ {p f} key, fm.frames p = some f →
    (fm.InTable fm.allocated key p ↔ f.status = .alloc ∧ f.addr = key)
  parents_iff : ∀ {p f} key, fm.frames p = some f →
    (fm.InTable fm.parents key p ↔ f.status = .parent ∧ (f.addr ||| f.i) = key)
  /-- a split frame has exactly two children, which tile it -/
  children : ∀ {p f}, fm.frames p = some f → f.status = .parent →
    ∃ l r fl fr, l ≠ r ∧ fm.frames l = some fl ∧ fm.frames r = some fr ∧
      fl.parent = some p ∧ fr.parent = some p ∧ fl.buddy = some r ∧ fr.buddy = some l ∧
      fl.addr = f.addr ∧ fr.addr = fl.addr + pageSize * fl.numPages ∧
      fl.numPages + fr.numPages = f.numPages ∧
      ∀ q g, fm.frames q = some g → g.parent = some p → q = l ∨ q = r

/-- A frame is in the table of its status, under its key, and in no other. -/
lemma Sound.inTable_iff (h : fm.Sound) {t : Ht ℕ Ptr} (st : FrameStatus)
    (ht : fm.view.table st = htGet t) {p : Ptr} {f : Frame} (hp : fm.frames p = some f) (key : ℕ) :
    fm.InTable t key p ↔ f.status = st ∧ f.key = key := by
  constructor
  · rintro ⟨n, hn, hnp⟩
    rw [← ht] at hn
    obtain ⟨q, g, hnq, hq, hst, hk⟩ := h.ok.of_table hn
    obtain rfl := Option.some.inj (hnp.symm.trans hnq)
    obtain rfl := Option.some.inj (hp.symm.trans hq)
    exact ⟨hst, hk⟩
  · rintro ⟨rfl, rfl⟩
    obtain ⟨n, hn⟩ := h.ok.owned hp
    exact ⟨n, by rw [← ht]; exact h.ok.lookup hn hp, hn⟩

/-- The invariant says that the structures are well formed. -/
theorem Inv.wellFormed (h : fm.Inv lim) : fm.WellFormed lim where
  cover x := by
    constructor
    · rintro ⟨hx, hx'⟩
      obtain ⟨p, b, hb, hl, hlo, hhi⟩ := h.forest.cover x hx hx'
      obtain ⟨f, hf, rfl⟩ := blocks_eq_some_iff.mp hb
      refine ⟨p, f, hf, by simpa [Frame.block] using hl, hlo, ?_⟩
      rw [h.ok.pages hf]
      exact hhi
    · rintro ⟨p, f, hf, -, hlo, hhi⟩
      rw [h.ok.pages hf] at hhi
      have hbase : userMemStart ≤ f.addr := h.forest.base_le (blocks_of_some hf)
      exact ⟨hbase.trans hlo, hhi.trans_le (h.end_le hf)⟩
  disjoint hp hq hf hg h1 h2 h3 h4 := by
    rw [h.ok.pages hp] at h2
    rw [h.ok.pages hq] at h4
    exact h.forest.leaf_unique (blocks_of_some hp) (blocks_of_some hq)
      (by simpa [Frame.block] using hf) (by simpa [Frame.block] using hg) ⟨h1, h2⟩ ⟨h3, h4⟩
  size hp := ⟨h.index_lt hp, h.ok.pages hp⟩
  bin_iff i hp := by
    constructor
    · rintro ⟨n, hn, hnp⟩
      obtain ⟨q, g, hnq, hq, hst, hi⟩ := h.ok.of_mem_bin hn
      obtain rfl := Option.some.inj (hnp.symm.trans hnq)
      obtain rfl := Option.some.inj (hp.symm.trans hq)
      exact ⟨hst, hi⟩
    · rintro ⟨hst, rfl⟩
      obtain ⟨n, hn⟩ := h.ok.owned hp
      exact ⟨n, h.ok.mem_bin hn hp hst, hn⟩
  bin_nodup i := h.ok.listed.nodup i
  deallocated_iff {p f} key hp := by
    rw [h.inTable_iff .dealloc rfl hp]
    refine and_congr_right fun hst => ?_
    rw [Frame.key, if_neg (by simp [hst])]
  allocated_iff {p f} key hp := by
    rw [h.inTable_iff .alloc rfl hp]
    refine and_congr_right fun hst => ?_
    rw [Frame.key, if_neg (by simp [hst])]
  parents_iff {p f} key hp := by
    rw [h.inTable_iff .parent rfl hp]
    refine and_congr_right fun hst => ?_
    rw [Frame.key, if_pos hst]
  children {p f} hp hst := by
    obtain ⟨l, r, bl, br, hh⟩ := h.forest.halves (blocks_of_some hp) (by simp [Frame.block, hst])
    obtain ⟨fl, hl, rfl⟩ := blocks_eq_some_iff.mp hh.left
    obtain ⟨fr, hr, rfl⟩ := blocks_eq_some_iff.mp hh.right
    have hol : fl.i + 1 = f.i := hh.left_ord
    have hor : fr.i + 1 = f.i := hh.right_ord
    refine ⟨l, r, fl, fr, hh.ne, hl, hr, hh.left_up, hh.right_up, hh.left_mate, hh.right_mate,
      hh.left_lo, ?_, ?_, ?_⟩
    · rw [h.ok.pages hl]
      exact hh.right_lo.trans (by rw [← hh.left_lo]; rfl)
    · rw [h.ok.pages hl, h.ok.pages hr, h.ok.pages hp, ← hol, show fr.i = fl.i by omega]
      ring
    · exact fun q g hq hup => hh.only q g.block (blocks_of_some hq) hup

/-! ### Runs -/

/-- A call of the frame manager. -/
inductive FmOp where
  | alloc (numPages : UInt32)
  | dealloc (pAddr : UInt32)

/-- A call, whatever it returns. -/
def FmOp.perform : FmOp → FmM Unit
  | .alloc numPages => do let _ ← fmAlloc numPages.toNat
  | .dealloc pAddr => do let _ ← fmDealloc pAddr.toNat

/-- A list of calls in a row. -/
def performAll : List FmOp → FmM Unit
  | [] => pure ()
  | op :: ops => do op.perform; performAll ops

/-- Initialisation with `numBins` bins and `numPages` pages, and calls after it. -/
def fmRun (numBins numPages : ℕ) (ops : List FmOp) : Except Fault Unit × FrameManager :=
  (do let _ ← fmInitUserSpace numPages; performAll ops : FmM Unit) (fmEmpty numBins)

/-- One call keeps the invariant. -/
lemma perform_spec (h : fm.Inv lim) (op : FmOp) :
    wp op.perform (fun _ fm' => fm'.Inv lim) (fun _ _ => False) fm := by
  cases op with
  | alloc numPages =>
      rw [FmOp.perform, wp_bind]
      refine wp_imp (fmAlloc_spec h numPages.toNat) fun r fm' hr => ?_
      rcases r with e | a
      · exact hr.2 ▸ h
      · obtain ⟨-, -, m, -, hl⟩ := hr
        exact hl.inv
  | dealloc pAddr =>
      rw [FmOp.perform, wp_bind]
      exact wp_imp (fmDealloc_spec h pAddr.toNat) fun r fm' hr => hr.1.inv

/-- Any calls keep the invariant. -/
lemma performAll_spec : ∀ (ops : List FmOp) {fm : FrameManager}, fm.Inv lim →
    wp (performAll ops) (fun _ fm' => fm'.Inv lim) (fun _ _ => False) fm := by
  intro ops
  induction ops with
  | nil => exact fun h => h
  | cons op ops ih =>
      intro fm h
      rw [performAll, wp_bind]
      exact wp_imp (perform_spec h op) fun _ fm' h' => ih h'

/-- **Every run of the frame manager returns and leaves its structures well
formed.** -/
theorem fmRun_wellFormed {numBins numPages : ℕ} (h1 : 1 ≤ numBins) (h2 : numBins ≤ 31)
    (hpos : 0 < numPages) (hfit : userMemStart + numPages * pageSize ≤ 2 ^ 32)
    (ops : List FmOp) :
    ∃ fm, fmRun numBins numPages ops = (.ok (), fm) ∧
      fm.WellFormed (userMemStart + numPages * pageSize) := by
  rw [mul_comm] at hfit ⊢
  have hrun : wp (do let _ ← fmInitUserSpace numPages; performAll ops : FmM Unit)
      (fun _ fm => fm.Inv (userMemStart + pageSize * numPages)) (fun _ _ => False)
      (fmEmpty numBins) := by
    rw [wp_bind]
    exact wp_imp (fmInitUserSpace_spec h1 h2 hpos hfit) fun r fm hr => performAll_spec ops hr.2.1
  obtain ⟨_, fm, hfm, hinv⟩ := wp_returns hrun
  exact ⟨fm, hfm, hinv.wellFormed⟩

/-- A run with three bins and thirteen pages, in which an allocation is too large. -/
theorem fmRun_wellFormed_thirteen :
    ∃ fm, fmRun 3 13 [.alloc 1, .alloc 9, .dealloc 0x1000000] = (.ok (), fm) ∧
      fm.WellFormed (userMemStart + 13 * pageSize) :=
  fmRun_wellFormed (by decide) (by decide) (by decide) (by decide) _

end FrameManager

end ShrekOS
