/-
What `fm_alloc` finds, and what is left when everything is deallocated.

* `View.root`: the frames that are not half of another one, whatever their status is;
* `Tidy`: besides the invariant, no two buddies are both deallocated, and the roots are the ones
  that `fm_init_user_space` has made; `fmAlloc_tidy`, `fmDealloc_tidy`: the operations keep it;
* `Halving`, `PagesFree`: a block that one gets by halving an initial frame, and that no
  allocated frame shares a page with;
* `fmAlloc_complete`: **`fm_alloc` succeeds just when there is such a block of the size that it
  gives out**;
* `FmOp.tally`, `tallyRun_returned`: **when everything has been deallocated, the frame manager is
  as it was initialised**, up to the order within the bins.
-/
import ShrekOS.Lib.Coalesced
import ShrekOS.Mem.FrameRuns

namespace ShrekOS

open Kit Kit.Cmd Kit.Buddy

/-! ### The roots -/

namespace View

/-- The frame of a node that is not half of another one, up to its status. -/
def root (v : View) (n : Ptr) : Option (Ptr × Frame) :=
  (v.nodes n).bind fun p => (v.frames p).bind fun f =>
    if f.parent = none then some (p, { f with status := .dealloc }) else none

variable {v : View} {n p : Ptr} {f : Frame}

lemma root_of (hn : v.nodes n = some p) (hp : v.frames p = some f) :
    v.root n = if f.parent = none then some (p, { f with status := .dealloc }) else none := by
  rw [root, hn, Option.bind_some, hp, Option.bind_some]

lemma root_eq_some_iff {g : Frame} : v.root n = some (p, g) ↔ ∃ f, v.nodes n = some p ∧
    v.frames p = some f ∧ f.parent = none ∧ { f with status := .dealloc } = g := by
  constructor
  · intro h
    obtain ⟨q, hn, h⟩ := Option.bind_eq_some_iff.mp h
    obtain ⟨f, hq, h⟩ := Option.bind_eq_some_iff.mp h
    split_ifs at h with hup
    rw [Option.some.injEq, Prod.mk.injEq] at h
    obtain ⟨rfl, rfl⟩ := h
    exact ⟨f, hn, hq, hup, rfl⟩
  · rintro ⟨f, hn, hp, hup, rfl⟩
    rw [root_of hn hp, if_pos hup]

/-- A half leaves the structures. -/
lemma root_erase (h : v.Ok) (hn : v.nodes n = some p) (hp : v.frames p = some f)
    (hup : f.parent ≠ none) : (v.erase n p f).root = v.root := by
  funext m
  by_cases hm : m = n
  · subst hm
    rw [root_of hn hp, if_neg hup, root, erase_nodes, Function.update_self, Option.bind_none]
  · rw [root, root, erase_nodes, erase_frames, Function.update_of_ne hm]
    cases hq : v.nodes m with
    | none => rfl
    | some q =>
        have hqp : q ≠ p := fun hqp => hm (h.inj hq (hqp ▸ hn))
        rw [Option.bind_some, Option.bind_some, Function.update_of_ne hqp]

/-- A half enters the structures. -/
lemma root_insert (h : v.Ok) (hn : v.nodes n = none) (hp : v.frames p = none)
    (hup : f.parent ≠ none) : (v.insert n p f).root = v.root := by
  funext m
  by_cases hm : m = n
  · subst hm
    rw [root_of (v := v.insert m p f) (Function.update_self ..) (Function.update_self ..),
      if_neg hup, root, hn, Option.bind_none]
  · rw [root, root, insert_nodes, insert_frames, Function.update_of_ne hm]
    cases hq : v.nodes m with
    | none => rfl
    | some q =>
        have hqp : q ≠ p := by
          rintro rfl
          obtain ⟨g, hg⟩ := h.live hq
          simp [hp] at hg
        rw [Option.bind_some, Option.bind_some, Function.update_of_ne hqp]

/-- A change of status. -/
lemma root_restatus (h : v.Ok) (st : FrameStatus) (hn : v.nodes n = some p)
    (hp : v.frames p = some f) : (v.restatus n p f st).root = v.root := by
  funext m
  rw [root, root, restatus_nodes hn, restatus_frames]
  by_cases hm : m = n
  · subst hm
    simp only [hn, hp, Option.bind_some, Function.update_self]
  · cases hq : v.nodes m with
    | none => rfl
    | some q =>
        have hqp : q ≠ p := fun hqp => hm (h.inj hq (hqp ▸ hn))
        rw [Option.bind_some, Option.bind_some, Function.update_of_ne hqp]

end View

namespace FrameManager

variable {lim : ℕ} {fm fm' : FrameManager} {n p : Ptr} {f : Frame} {k : ℕ}

/-! ### Allocating -/

/-- Only the first frame of bin `k` can be coalesced with its buddy. -/
def HeadApart (fm : FrameManager) (k : ℕ) : Prop :=
  ∀ ⦃n p f⦄, fm.Head k n p f → CoalescedBut (blocks fm.frames) p

lemma HeadSplit.root (h : fm.Inv lim) (hs : fm.HeadSplit k fm') : fm'.view.root = fm.view.root := by
  obtain ⟨n, p, f, ⟨-, hn, hp, hst, hi⟩, hturn⟩ := hs
  have hok := h.ok.restatus .parent hn hp (by simp [hst])
    (by simpa [Frame.key] using h.key_free hp (by simp [hst]))
  have hnodes := View.restatus_nodes (v := fm.view) hn f .parent
  have hframes := View.restatus_frames fm.view n p f .parent
  have htable := View.restatus_table_old fm.view n p (f := f) .parent (by simp [hst])
  rw [hst, Frame.key, if_neg (by simp [hst])] at htable
  have hn2 : (fm.view.restatus n p f .parent).nodes (fm.nextPtr + 2) = none := by
    rw [hnodes]; exact h.fresh_node (Nat.le_add_right _ 2)
  have hf2 : (fm.view.restatus n p f .parent).frames fm.nextPtr = none := by
    rw [hframes, Function.update_of_ne (h.lt_of_frame hp).ne']; exact h.fresh_frame le_rfl
  have hok2 := hok.insert (f := leftHalf f k p (fm.nextPtr + 1)) hn2 hf2
    (by simp [leftHalf, Frame.key, htable]) rfl
  rw [hturn.view, splitView, View.root_insert hok2 ?_ ?_ (by simp [rightHalf]),
    View.root_insert hok hn2 hf2 (by simp [leftHalf]), View.root_restatus h.ok _ hn hp]
  · rw [View.insert_nodes, Function.update_of_ne (by simp), hnodes]
    exact h.fresh_node (Nat.le_add_right _ 3)
  · rw [View.insert_frames, Function.update_of_ne (by simp), hframes,
      Function.update_of_ne ((h.lt_of_frame hp).trans (Nat.lt_succ_self _)).ne']
    exact h.fresh_frame (Nat.le_add_right _ 1)

/-- After a split into an empty bin only its first frame can be coalesced with its buddy. -/
lemma HeadSplit.apart (h : fm.Inv lim) (hs : fm.HeadSplit k fm') (hempty : fm.frameBins k = [])
    (hc : fm.HeadApart (k + 1)) : fm'.HeadApart k := by
  have hbin := hs.bins.1
  rw [hempty, List.nil_append] at hbin
  obtain ⟨n, p, f, hhead, hturn⟩ := hs
  have hpN := h.lt_of_frame hhead.frame
  have hfr : fm'.frames = _ :=
    (congrArg View.frames hturn.view).trans (splitView_frames fm.view n p f k fm.nextPtr)
  have hnd : fm'.nodes = _ := (congrArg View.nodes hturn.view).trans
    (splitView_nodes (v := fm.view) hhead.node f k fm.nextPtr)
  intro m q g hm
  -- the first frame of the bin is the left half
  have hmn : m = fm.nextPtr + 2 := by
    have hfirst := hm.first
    rw [hbin, List.head?_cons] at hfirst
    exact (Option.some.inj hfirst).symm
  have hq : q = fm.nextPtr := by
    have hnode := hm.node
    rw [hnd, hmn, Function.update_of_ne (by simp), Function.update_self] at hnode
    exact (Option.some.inj hnode).symm
  subst hq
  have hleft : fm'.frames p = some { f with status := .parent } := by
    rw [hfr, Function.update_of_ne (hpN.trans (Nat.lt_succ_self _)).ne,
      Function.update_of_ne hpN.ne, Function.update_self]
  have hright : fm'.frames (fm.nextPtr + 1) = some (rightHalf f k p fm.nextPtr) := by
    rw [hfr, Function.update_self]
  refine (hc hhead).split h.forest ?_ (blocks_of_some hleft) (by simp [Frame.block])
    (blocks_of_some hright) rfl ?_
  · rw [blocks, h.fresh_frame (Nat.le_add_right _ 1), Option.map_none]
  · intro z h1 h2 h3
    rw [blocks, hfr, Function.update_of_ne h3, Function.update_of_ne h2,
      Function.update_of_ne h1, blocks]
    rfl

lemma SplitTo.root (hs : SplitTo fm k fm') (h : fm.Inv lim) : fm'.view.root = fm.view.root := by
  induction hs with
  | here hsplit => exact hsplit.root h
  | above _ hs hsplit ih => exact (hsplit.root (hs.leads h).inv).trans ih

/-- After the splits only the first frame of the bin can be coalesced with its buddy. -/
lemma SplitTo.apart (hs : SplitTo fm k fm') (h : fm.Inv lim) (hempty : fm.frameBins k = [])
    (hc : Coalesced (blocks fm.frames)) : fm'.HeadApart k := by
  induction hs with
  | here hsplit => exact hsplit.apart h hempty fun _ _ _ _ => hc.but _
  | @above k fm₁ fm' habove hs hsplit ih =>
      refine hsplit.apart (hs.leads h).inv ?_ (ih habove)
      rw [hs.bins.2 k (Nat.lt_succ_self k), hempty]

lemma HeadTaken.root {j a : ℕ} (h : fm.Inv lim) (ht : fm.HeadTaken j a fm') :
    fm'.view.root = fm.view.root := by
  obtain ⟨n, p, f, hhead, -, hturn⟩ := ht
  rw [hturn.view, View.root_restatus h.ok _ hhead.node hhead.frame]

lemma HeadTaken.coalesced {j a : ℕ} (ht : fm.HeadTaken j a fm') (hc : fm.HeadApart j) :
    Coalesced (blocks fm'.frames) := by
  obtain ⟨n, p, f, hhead, -, hturn⟩ := ht
  have hfr : fm'.frames = _ :=
    (congrArg View.frames hturn.view).trans (View.restatus_frames fm.view n p f .alloc)
  have hp : fm'.frames p = some { f with status := .alloc } := by rw [hfr, Function.update_self]
  refine (hc hhead).take (blocks_of_some hp) (by simp [Frame.block])
    fun z hz => ?_
  rw [blocks, hfr, Function.update_of_ne hz, blocks]
  rfl

/-! ### Deallocating -/

/-- The roots stay when a frame is deallocated. -/
lemma Joined.root (hj : Joined fm p f fm') (h : fm.Hole lim p f) :
    fm'.view.root = fm.view.root := by
  induction hj with
  | fill hn _ ht => rw [ht.view, View.root_restatus h.ok _ hn h.frame]
  | @merge fm fm₁ fm' n m p b q f g c hn hm hb hg hst hup hc hcs ht _ ih =>
      obtain ⟨q', c', g', h1, -, -, h4, h5, -, h6, -⟩ := h.buddy hb
      obtain rfl := Option.some.inj (hg.symm.trans h4)
      have hmn : m ≠ n := by
        rintro rfl
        exact h5 (Option.some.inj (hm.symm.trans hn))
      rw [ih (h.merge hn hb hm hg hst hup hc ht).1, ht.view,
        View.root_erase (h.ok.erase hn h.frame) ?_ ?_ (by simp [h6]),
        View.root_erase h.ok hn h.frame (by simp [hup])]
      · rw [View.erase_nodes, Function.update_of_ne hmn]
        exact hm
      · rw [View.erase_frames, Function.update_of_ne h5]
        exact hg

/-- Nothing is left to coalesce when a frame is deallocated. -/
lemma Joined.coalesced (hj : Joined fm p f fm') (h : fm.Hole lim p f)
    (hc : Coalesced (blocks (Function.update fm.frames p (some { f with status := .alloc })))) :
    Coalesced (blocks fm'.frames) := by
  induction hj with
  | @fill fm fm' n p f hn hno ht =>
      have hfr : fm'.frames = _ :=
        (congrArg View.frames ht.view).trans (View.restatus_frames fm.view n p f .dealloc)
      have hp : fm'.frames p = some { f with status := .dealloc } := by
        rw [hfr, Function.update_self]
      refine hc.release h.forest (blocks_of_some (Function.update_self ..)) (blocks_of_some hp)
        rfl ?_ fun z hz => ?_
      · intro b d hb hd
        obtain ⟨q, c, g, -, -, -, hg, hbp, -⟩ := h.buddy hb
        rw [blocks_of_some (f := g) (by rw [Function.update_of_ne hbp, hg])] at hd
        obtain rfl := Option.some.inj hd
        intro hfree
        exact hno ⟨b, g, hb, hg, (state_eq_free_iff _).mp hfree⟩
      · rw [blocks, blocks, hfr, Function.update_of_ne hz, Function.update_of_ne hz]
        rfl
  | @merge fm fm₁ fm' n m p b q f g c hn hm hb hg hst hup hc' hcs ht _ ih =>
      obtain ⟨q', c', g', h1, h2, h3, h4, h5, hqp, -⟩ := h.buddy hb
      obtain rfl := Option.some.inj (hg.symm.trans h4)
      obtain rfl := Option.some.inj (hup.symm.trans h1)
      have hqb : q ≠ b := by
        rintro rfl
        obtain rfl := Option.some.inj (hg.symm.trans h2)
        simp [hst] at h3
      have hfr : fm₁.frames = Function.update (Function.update fm.frames p none) b none :=
        congrArg View.frames ht.view
      refine ih (h.merge hn hb hm hg hst hup hc' ht).1 (hc.merge (q := q) (l := p) (r := b)
        (c := { c with status := .alloc }.block) (blocks_of_some (Function.update_self ..))
        (by simp [Frame.block]) ?_ ?_ ?_)
      · rw [blocks, Function.update_of_ne hqp.symm, hfr, Function.update_of_ne h5.symm,
          Function.update_self, Option.map_none]
      · rw [blocks, Function.update_of_ne hqb.symm, hfr, Function.update_self, Option.map_none]
      · intro z h1 h2 h3
        rw [blocks, Function.update_of_ne h1, hfr, Function.update_of_ne h3,
          Function.update_of_ne h2, blocks, Function.update_of_ne h2]

/-! ### What the operations keep -/

/-- Every frame is a deallocated root. -/
def Fresh (fm : FrameManager) : Prop :=
  ∀ ⦃p f⦄, fm.frames p = some f → f.parent = none ∧ f.status = .dealloc

/-- **The second invariant of the frame manager**, after an initialisation that left `fm₀`. -/
structure Tidy (lim : ℕ) (fm₀ fm : FrameManager) : Prop where
  inv : fm.Inv lim
  inv₀ : fm₀.Inv lim
  fresh₀ : fm₀.Fresh
  numBins : fm.numBins = fm₀.numBins
  root : fm.view.root = fm₀.view.root
  coalesced : Coalesced (blocks fm.frames)

variable {fm₀ : FrameManager}

lemma Allocated.tidy {j a : ℕ} (h : Tidy lim fm₀ fm) (ha : fm.Allocated j a fm') :
    Tidy lim fm₀ fm' := by
  cases ha with
  | first ht =>
      have hl := (ht.leads h.inv).2
      exact ⟨hl.inv, h.inv₀, h.fresh₀, hl.numBins.trans h.numBins, (ht.root h.inv).trans h.root,
        ht.coalesced fun _ _ _ _ => h.coalesced.but _⟩
  | split hempty hs ht =>
      have hl := hs.leads h.inv
      have hl' := (ht.leads hl.inv).2
      exact ⟨hl'.inv, h.inv₀, h.fresh₀, hl'.numBins.trans (hl.numBins.trans h.numBins),
        (ht.root hl.inv).trans ((hs.root h.inv).trans h.root),
        ht.coalesced (hs.apart h.inv hempty h.coalesced)⟩

lemma Joined.tidy (h : Tidy lim fm₀ fm) (hp : fm.frames p = some f) (hst : f.status = .alloc)
    (hj : Joined fm p f fm') : Tidy lim fm₀ fm' := by
  obtain ⟨n, hn⟩ := h.inv.ok.owned hp
  have hole := h.inv.hole hp hst
  have hl := hj.leads hole hn
  refine ⟨hl.inv, h.inv₀, h.fresh₀, hl.numBins.trans h.numBins, (hj.root hole).trans h.root,
    hj.coalesced hole ?_⟩
  have heq : ({ f with status := .alloc } : Frame) = f := by rw [← hst]
  rw [heq, ← hp, Function.update_eq_self]
  exact h.coalesced

lemma fmAlloc_tidy (h : Tidy lim fm₀ fm) (numPages : ℕ) :
    wp (fmAlloc numPages) (fun _ fm' => Tidy lim fm₀ fm') (fun _ _ => False) fm := by
  refine wp_imp (fmAlloc_does h.inv numPages) fun r fm' hr => ?_
  cases r with
  | error e => exact hr.2.1 ▸ h
  | ok a => exact hr.2.2.tidy h

lemma fmDealloc_tidy (h : Tidy lim fm₀ fm) (a : ℕ) :
    wp (fmDealloc a) (fun _ fm' => Tidy lim fm₀ fm') (fun _ _ => False) fm := by
  refine wp_imp (fmDealloc_does h.inv a) fun r fm' hr => ?_
  rcases hr with ⟨-, -, rfl⟩ | ⟨-, p, f, hp, hst, -, hj⟩
  · exact h
  · exact hj.tidy h hp hst

lemma performAll_tidy : ∀ (ops : List FmOp) {fm : FrameManager}, Tidy lim fm₀ fm →
    wp (performAll ops) (fun _ fm' => Tidy lim fm₀ fm') (fun _ _ => False) fm := by
  intro ops
  induction ops with
  | nil => exact fun h => h
  | cons op ops ih =>
      intro fm h
      rw [performAll, wp_bind]
      cases op with
      | alloc numPages =>
          rw [FmOp.perform, wp_bind]
          exact wp_imp (fmAlloc_tidy h numPages.toNat) fun _ _ h' => ih h'
      | dealloc pAddr =>
          rw [FmOp.perform, wp_bind]
          exact wp_imp (fmDealloc_tidy h pAddr.toNat) fun _ _ h' => ih h'

/-! ### Initialisation -/

/-- Every frame is a deallocated root, and there are `k` bins. -/
def FreshBins (k : ℕ) (fm : FrameManager) : Prop := fm.Fresh ∧ fm.numBins = k

lemma newFrame_fresh (k i a : ℕ) : Preserves (FreshBins k) (newFrame i a) := by
  intro fm h
  simp only [wlp, newFrame, wp_bind, wp_malloc, wp_frameInit, wp_llNodeInit, wp_llLinkNodeLast,
    wp_putDeallocated, wp_pure, implies_true, and_true]
  intro _ _
  refine ⟨fun p f hp => ?_, h.2⟩
  dsimp only at hp
  by_cases hpn : p = fm.nextPtr
  · subst hpn
    rw [Function.update_self] at hp
    obtain rfl := Option.some.inj hp
    exact ⟨rfl, rfl⟩
  · rw [Function.update_of_ne hpn] at hp
    exact h.1 hp

lemma initBin_fresh (k i : ℕ) : ∀ (fuel remaining a : ℕ),
    Preserves (FreshBins k) (initBin fuel i remaining a) := by
  intro fuel
  induction fuel with
  | zero => exact fun _ _ => .fault _
  | succ fuel ih =>
      exact fun _ _ => .ite (.bind (newFrame_fresh k i _) fun _ => ih _ _) (.pure _)

lemma initBins_fresh (k fuel : ℕ) : ∀ (i remaining a : ℕ),
    Preserves (FreshBins k) (initBins fuel i remaining a) := by
  intro i
  induction i with
  | zero => exact fun _ _ => .pure _
  | succ i ih => exact fun _ _ => .bind (initBin_fresh k i fuel _ _) fun r => ih r.1 r.2

lemma fmInitUserSpace_fresh (k numPages : ℕ) :
    Preserves (FreshBins k) (fmInitUserSpace numPages) :=
  .ite (.pure _) (.bind (.gets _) fun _ => .bind (initBins_fresh k _ _ _ _) fun _ => .pure _)

/-- **Initialisation** leaves deallocated roots. -/
theorem fmInitUserSpace_tidy {numBins numPages : ℕ} (h1 : 1 ≤ numBins) (h2 : numBins ≤ 31)
    (hpos : 0 < numPages) (hfit : userMemStart + numPages * pageSize ≤ 2 ^ 32) :
    wp (fmInitUserSpace numPages) (fun r fm => r = 0 ∧
      Tidy (userMemStart + numPages * pageSize) fm fm ∧ fm.numBins = numBins ∧
      fm.view.extent = fun _ => none) (fun _ _ => False) (fmEmpty numBins) := by
  rw [mul_comm] at hfit ⊢
  have hfresh := fmInitUserSpace_fresh numBins numPages (fmEmpty numBins)
    ⟨fun _ _ hp => by simp [fmEmpty] at hp, rfl⟩
  refine wp_mono (wp_both (fmInitUserSpace_spec h1 h2 hpos hfit) hfresh) ?_ fun _ _ hf => hf.1
  rintro r fm ⟨⟨rfl, hinv, hext⟩, hf, hbins⟩
  refine ⟨rfl, ⟨hinv, hinv, hf, rfl, rfl, ?_⟩, hbins, hext⟩
  intro p q b c hp hq hm
  obtain ⟨f, hp', rfl⟩ := blocks_eq_some_iff.mp hp
  have hroot := hinv.forest.root hp (hf hp').1
  simp [hroot] at hm

/-! ### Completeness -/

/-- The block of `2 ^ k` pages at `a` is one that halving a frame of `fm₀` zero or more times
gives. -/
def Halving (fm₀ : FrameManager) (a k : ℕ) : Prop :=
  Cut pageSize (fun lo i => ∃ p f, fm₀.frames p = some f ∧ f.addr = lo ∧ f.i = i) a k

/-- No allocated frame has an address in the `2 ^ k` pages at `a`. -/
def PagesFree (fm : FrameManager) (a k : ℕ) : Prop :=
  ∀ x, a ≤ x → x < a + pageSize * 2 ^ k → ∀ p f, fm.frames p = some f → f.status = .alloc →
    ¬ (f.addr ≤ x ∧ x < f.addr + pageSize * f.numPages)

/-- The roots have the places of the initial frames. -/
lemma Tidy.cut_iff (h : Tidy lim fm₀ fm) (a k : ℕ) :
    Cut pageSize (Root (blocks fm.frames)) a k ↔ fm₀.Halving a k := by
  have hroot : Root (blocks fm.frames) =
      fun lo i => ∃ p f, fm₀.frames p = some f ∧ f.addr = lo ∧ f.i = i := by
    funext lo i
    refine propext ⟨?_, ?_⟩
    · rintro ⟨p, b, hb, hup, rfl, rfl⟩
      obtain ⟨f, hp, rfl⟩ := blocks_eq_some_iff.mp hb
      obtain ⟨n, hn⟩ := h.inv.ok.owned hp
      have hr := View.root_eq_some_iff.mpr ⟨f, hn, hp, hup, rfl⟩
      rw [h.root] at hr
      obtain ⟨f₀, -, hp₀, -, heq⟩ := View.root_eq_some_iff.mp hr
      obtain ⟨ha, -, -, hi, -⟩ := Frame.mk.inj heq
      exact ⟨p, f₀, hp₀, ha, hi⟩
    · rintro ⟨p, f₀, hp₀, rfl, rfl⟩
      obtain ⟨n, hn⟩ := h.inv₀.ok.owned hp₀
      have hr := View.root_eq_some_iff.mpr ⟨f₀, hn, hp₀, (h.fresh₀ hp₀).1, rfl⟩
      rw [← h.root] at hr
      obtain ⟨f, -, hp, hup, heq⟩ := View.root_eq_some_iff.mp hr
      obtain ⟨ha, -, -, hi, -⟩ := Frame.mk.inj heq
      exact ⟨p, f.block, blocks_of_some hp, hup, ha, hi⟩
  rw [Halving, hroot]

lemma Inv.pagesFree_iff (h : fm.Inv lim) (a k : ℕ) : fm.PagesFree a k ↔
    ∀ x, a ≤ x → x < a + pageSize * 2 ^ k → Unused pageSize (blocks fm.frames) x := by
  refine forall_congr' fun x => imp_congr_right fun _ => imp_congr_right fun _ => ⟨?_, ?_⟩
  · intro hfree p b hb hst
    obtain ⟨f, hp, rfl⟩ := blocks_eq_some_iff.mp hb
    have hno := hfree p f hp ((state_eq_used_iff _).mp hst)
    rwa [h.ok.pages hp] at hno
  · intro hun p f hp hst
    rw [h.ok.pages hp]
    exact hun (blocks_of_some hp) ((state_eq_used_iff _).mpr hst)

/-- The bin that `fm_alloc` picks is the first one whose frames are large enough. -/
lemma findBin_eq {n j top : ℕ} (hj : IsLeast {j | n ≤ 2 ^ j} j) (hle : n ≤ 2 ^ top) :
    findBin n top = j :=
  le_antisymm (findBin_le hj.1 top) (hj.2 (findBin_spec n top hle).2)

/-- There is room for `n` pages just when halving gives an unused block of the least order that
is large enough. -/
lemma Tidy.hasRoom_iff (h : Tidy lim fm₀ fm) {n j : ℕ} (hj : IsLeast {j | n ≤ 2 ^ j} j) :
    fm.HasRoom n ↔ ∃ a, fm₀.Halving a j ∧ fm.PagesFree a j := by
  have hfree : fm.HasRoom n ↔ ∃ p b, blocks fm.frames p = some b ∧ b.st = .free ∧ j ≤ b.ord := by
    constructor
    · rintro ⟨p, f, hp, hst, hn⟩
      rw [h.inv.ok.pages hp] at hn
      exact ⟨p, f.block, blocks_of_some hp, (state_eq_free_iff _).mpr hst, hj.2 hn⟩
    · rintro ⟨p, b, hb, hst, hjb⟩
      obtain ⟨f, hp, rfl⟩ := blocks_eq_some_iff.mp hb
      refine ⟨p, f, hp, (state_eq_free_iff _).mp hst, ?_⟩
      rw [h.inv.ok.pages hp]
      exact (show n ≤ 2 ^ j from hj.1).trans (Nat.pow_le_pow_right two_pos hjb)
  rw [hfree, h.inv.forest.exists_free_iff pageSize_pos h.coalesced j]
  refine exists_congr fun a => ?_
  rw [h.cut_iff, h.inv.pagesFree_iff]

/-- The frame that has been allocated is one that halving gives, and its pages were free. -/
lemma Allocated.block {j a : ℕ} (h : Tidy lim fm₀ fm) (ha : fm.Allocated j a fm') :
    fm₀.Halving a j ∧ fm.PagesFree a j ∧
      ∃ p f, fm'.frames p = some f ∧ f.status = .alloc ∧ f.addr = a ∧ f.numPages = 2 ^ j := by
  have h' := ha.tidy h
  obtain ⟨hnone, hl⟩ := ha.leads h.inv
  have hext : fm'.view.extent a = some (2 ^ j) := by rw [hl.extent, Function.update_self]
  obtain ⟨n, p, f, -, hn, hp, hst, rfl, hsize⟩ := View.of_extent h'.inv.ok hext
  change fm'.frames p = some f at hp
  have hi : f.i = j := by
    rw [h'.inv.ok.pages hp] at hsize
    exact Nat.pow_right_injective le_rfl hsize
  refine ⟨?_, ?_, p, f, hp, hst, rfl, hsize⟩
  · have hcut := h'.inv.forest.cut_of_block fm'.numBins (blocks_of_some hp) (Nat.le_add_left _ _)
    rw [h'.cut_iff] at hcut
    exact hi ▸ hcut
  · -- what was allocated before still is, and is not the new frame
    intro x h1 h2 q g hq hg hx
    obtain ⟨m, hm⟩ := h.inv.ok.owned (p := q) hq
    have hold := View.extent_of_alloc h.inv.ok hm hq hg
    have hne : g.addr ≠ f.addr := by
      intro heq
      rw [heq, hnone] at hold
      simp at hold
    have hnew : fm'.view.extent g.addr = some g.numPages := by
      rw [hl.extent, Function.update_of_ne hne, hold]
    obtain ⟨-, q', g', -, -, hq', hg', haddr, hpages⟩ := View.of_extent h'.inv.ok hnew
    change fm'.frames q' = some g' at hq'
    have hsame : p = q' := h'.inv.wellFormed.disjoint hp hq' (by simp [hst]) (by simp [hg'])
      h1 (by rwa [hsize]) (by rw [haddr]; exact hx.1) (by rw [haddr, hpages]; exact hx.2)
    subst hsame
    obtain rfl := Option.some.inj (hp.symm.trans hq')
    exact hne haddr.symm

/-- **Completeness of `fm_alloc`**, after any calls: with `j` the least index of a frame of `n`
pages, it succeeds just when `n` is a number of pages that there is a bin for and a block of
`2 ^ j` pages that halving gives is free; then it returns such a block, and else it changes
nothing. -/
theorem fmAlloc_complete {numBins numPages : ℕ} (h1 : 1 ≤ numBins) (h2 : numBins ≤ 31)
    (hpos : 0 < numPages) (hfit : userMemStart + numPages * pageSize ≤ 2 ^ 32)
    (ops : List FmOp) :
    ∃ fm₀ fm, fmInitUserSpace numPages (fmEmpty numBins) = (.ok 0, fm₀) ∧
      fmRun numBins numPages ops = (.ok (), fm) ∧
      ∀ n j, IsLeast {j | n ≤ 2 ^ j} j → ∃ r fm', fmAlloc n fm = (.ok r, fm') ∧
        ((∃ a, r = .ok a) ↔ (1 ≤ n ∧ n ≤ 2 ^ (numBins - 1)) ∧
          ∃ a, fm₀.Halving a j ∧ fm.PagesFree a j) ∧
        (∀ a, r = .ok a → fm₀.Halving a j ∧ fm.PagesFree a j ∧
          ∃ p f, fm'.frames p = some f ∧ f.status = .alloc ∧ f.addr = a ∧ f.numPages = 2 ^ j) ∧
        ∀ e, r = .error e → e < 0 ∧ fm' = fm := by
  obtain ⟨r₀, fm₀, hinit, rfl, htidy₀, hbins, -⟩ :=
    wp_returns (fmInitUserSpace_tidy h1 h2 hpos hfit)
  obtain ⟨_, fm, hrun, htidy⟩ := wp_returns (performAll_tidy ops htidy₀)
  refine ⟨fm₀, fm, hinit, (run_bind hinit).trans hrun, fun n j hj => ?_⟩
  obtain ⟨r, fm', halloc, hr⟩ := wp_returns (fmAlloc_does htidy.inv n)
  have hnum : fm.numBins = numBins := htidy.numBins.trans hbins
  refine ⟨r, fm', halloc, ?_, ?_, ?_⟩
  · cases r with
    | ok a =>
        obtain ⟨hpos, hle, ha⟩ := hr
        rw [findBin_eq hj hle] at ha
        obtain ⟨hhalf, hfree, -⟩ := ha.block htidy
        exact iff_of_true ⟨a, rfl⟩ ⟨⟨hpos, hnum ▸ hle⟩, a, hhalf, hfree⟩
    | error e =>
        refine iff_of_false (by simp) ?_
        rintro ⟨⟨hpos, hle⟩, hblock⟩
        rw [← hnum] at hle
        obtain ⟨k, hk, hlt, hne⟩ :=
          (hasRoom_iff_bin htidy.inv hle).mp ((htidy.hasRoom_iff hj).mpr hblock)
        exact hne (hr.2.2 hpos hle k hk hlt)
  · rintro a rfl
    obtain ⟨-, hle, ha⟩ := hr
    rw [findBin_eq hj hle] at ha
    exact ha.block htidy
  · rintro e rfl
    exact ⟨hr.1, hr.2.1⟩

/-- A run with three bins and thirteen pages. -/
theorem fmAlloc_complete_thirteen :
    ∃ fm₀ fm, fmInitUserSpace 13 (fmEmpty 3) = (.ok 0, fm₀) ∧
      fmRun 3 13 [.alloc 3, .dealloc 0x1000000] = (.ok (), fm) ∧
      ∀ n j, IsLeast {j | n ≤ 2 ^ j} j → ∃ r fm', fmAlloc n fm = (.ok r, fm') ∧
        ((∃ a, r = .ok a) ↔ (1 ≤ n ∧ n ≤ 2 ^ (3 - 1)) ∧
          ∃ a, fm₀.Halving a j ∧ fm.PagesFree a j) ∧
        (∀ a, r = .ok a → fm₀.Halving a j ∧ fm.PagesFree a j ∧
          ∃ p f, fm'.frames p = some f ∧ f.status = .alloc ∧ f.addr = a ∧ f.numPages = 2 ^ j) ∧
        ∀ e, r = .error e → e < 0 ∧ fm' = fm :=
  fmAlloc_complete (by decide) (by decide) (by decide) (by decide) _

/-! ### Nothing is lost -/

/-- One call, with the addresses that are out: the ones that `fm_alloc` has returned and
`fm_dealloc` has not taken back. -/
def FmOp.tally : FmOp → List ℕ → FmM (List ℕ)
  | .alloc numPages, out => do
      match ← fmAlloc numPages.toNat with
      | .ok a => pure (a :: out)
      | .error _ => pure out
  | .dealloc pAddr, out => do
      let r ← fmDealloc pAddr.toNat
      if r = 0 then pure (out.erase pAddr.toNat) else pure out

/-- A list of calls in a row. -/
def tallyAll : List FmOp → List ℕ → FmM (List ℕ)
  | [], out => pure out
  | op :: ops, out => do tallyAll ops (← op.tally out)

/-- Initialisation and calls after it: the addresses that are out at the end. -/
def tallyRun (numBins numPages : ℕ) (ops : List FmOp) : Except Fault (List ℕ) × FrameManager :=
  (do let _ ← fmInitUserSpace numPages; tallyAll ops [] : FmM (List ℕ)) (fmEmpty numBins)

/-- The addresses that are out are the ones where something is allocated. -/
structure Out (out : List ℕ) (fm : FrameManager) : Prop where
  nodup : out.Nodup
  mem_iff : ∀ a, a ∈ out ↔ fm.view.extent a ≠ none

/-- One call keeps the account of the addresses that are out. -/
lemma tally_spec {out : List ℕ} (op : FmOp) (h : Tidy lim fm₀ fm) (ho : Out out fm) :
    wp (op.tally out) (fun out' fm' => Tidy lim fm₀ fm' ∧ Out out' fm') (fun _ _ => False) fm := by
  cases op with
  | alloc numPages =>
      rw [FmOp.tally, wp_bind]
      refine wp_mono (wp_both (fmAlloc_tidy h numPages.toNat) (fmAlloc_spec h.inv numPages.toNat))
        ?_ fun _ _ hf => hf.1
      rintro r fm' ⟨h', hr⟩
      cases r with
      | error e => exact ⟨h', hr.2 ▸ ho⟩
      | ok a =>
          obtain ⟨-, hnone, m, -, hl⟩ := hr
          refine ⟨h', List.nodup_cons.mpr ⟨fun ha => (ho.mem_iff a).mp ha hnone, ho.nodup⟩,
            fun b => ?_⟩
          rw [hl.extent, List.mem_cons]
          by_cases hb : b = a
          · simp [hb]
          · rw [Function.update_of_ne hb, ← ho.mem_iff]
            simp [hb]
  | dealloc pAddr =>
      rw [FmOp.tally, wp_bind]
      refine wp_mono (wp_both (fmDealloc_tidy h pAddr.toNat) (fmDealloc_spec h.inv pAddr.toNat))
        ?_ fun _ _ hf => hf.1
      rintro r fm' ⟨h', hl, hnone, hsome⟩
      rw [wp_ite]
      constructor
      · intro _
        refine ⟨h', ho.nodup.erase _, fun b => ?_⟩
        rw [hl.extent, ho.nodup.mem_erase_iff, ho.mem_iff]
        by_cases hb : b = pAddr.toNat
        · simp [hb]
        · rw [Function.update_of_ne hb]
          simp [hb]
      · intro hr
        have hfree : fm.view.extent pAddr.toNat = none := by
          by_contra hne
          exact hr (hsome hne)
        have hsame := Function.update_eq_self pAddr.toNat fm.view.extent
        rw [hfree] at hsame
        refine ⟨h', ho.nodup, fun b => ?_⟩
        rw [hl.extent, hsame, ho.mem_iff]

lemma tallyAll_spec : ∀ (ops : List FmOp) {out : List ℕ} {fm : FrameManager}, Tidy lim fm₀ fm →
    Out out fm → wp (tallyAll ops out) (fun out' fm' => Tidy lim fm₀ fm' ∧ Out out' fm')
      (fun _ _ => False) fm := by
  intro ops
  induction ops with
  | nil => exact fun h ho => ⟨h, ho⟩
  | cons op ops ih =>
      intro out fm h ho
      rw [tallyAll, wp_bind]
      exact wp_imp (tally_spec op h ho) fun _ _ h' => ih h'.1 h'.2

/-- The frame manager is as it was when it was initialised, up to the order within the bins. -/
structure Returned (fm₀ fm : FrameManager) : Prop where
  allocated : ∀ i, fm.allocated.arr i = []
  parents : ∀ i, fm.parents.arr i = []
  frames : fm.frames = fm₀.frames
  nodes : fm.nodes = fm₀.nodes
  bins : ∀ i, (fm.frameBins i).Perm (fm₀.frameBins i)

/-- A frame of one of two frame managers with the same roots, all of them deallocated, is one
of the other. -/
lemma Fresh.sub (hok : fm.view.Ok) (h : fm.Fresh) (h' : fm'.Fresh)
    (hroot : fm.view.root = fm'.view.root) (hn : fm.nodes n = some p) :
    fm'.nodes n = some p ∧ fm'.frames p = fm.frames p := by
  obtain ⟨f, hp⟩ := hok.live (n := n) (p := p) hn
  change fm.frames p = some f at hp
  have hr := (View.root_eq_some_iff (v := fm.view)).mpr ⟨f, hn, hp, (h hp).1, rfl⟩
  rw [hroot] at hr
  obtain ⟨g, hn', hp', -, heq⟩ := View.root_eq_some_iff.mp hr
  change fm'.nodes n = some p at hn'
  change fm'.frames p = some g at hp'
  refine ⟨hn', ?_⟩
  have hf : ({ f with status := .dealloc } : Frame) = f := by rw [← (h hp).2]
  have hg : ({ g with status := .dealloc } : Frame) = g := by rw [← (h' hp').2]
  rw [hp', hp, ← hf, ← hg, heq]

/-- When nothing is allocated, only the initial frames are left. -/
lemma Tidy.returned (h : Tidy lim fm₀ fm) (hnone : ∀ a, fm.view.extent a = none) :
    fm₀.Returned fm := by
  have hun : ∀ {p f}, fm.frames p = some f → f.status ≠ .alloc := by
    intro p f hp hst
    obtain ⟨n, hn⟩ := h.inv.ok.owned hp
    simpa [hnone] using View.extent_of_alloc h.inv.ok hn hp hst
  have hfresh : fm.Fresh := by
    intro p f hp
    obtain ⟨hfree, hup⟩ := h.inv.forest.eq_root_of_unused pageSize_pos h.coalesced
      (fun {q c} hq hc => by
        obtain ⟨g, hq', rfl⟩ := blocks_eq_some_iff.mp hq
        exact hun hq' ((state_eq_used_iff _).mp hc)) (blocks_of_some hp)
    exact ⟨hup, (state_eq_free_iff _).mp hfree⟩
  have hsub := fun {n p} => h.fresh₀.sub (n := n) (p := p) h.inv₀.ok hfresh h.root.symm
  have hsub' := fun {n p} => hfresh.sub (n := n) (p := p) h.inv.ok h.fresh₀ h.root
  have hnodes : fm.nodes = fm₀.nodes := by
    funext n
    refine Option.ext fun p => ⟨fun hn => (hsub' hn).1, fun hn => (hsub hn).1⟩
  have hframes : fm.frames = fm₀.frames := by
    funext p
    refine Option.ext fun f => ⟨fun hp => ?_, fun hp => ?_⟩
    · obtain ⟨n, hn⟩ := h.inv.ok.owned hp
      rw [(hsub' hn).2, hp]
    · obtain ⟨n, hn⟩ := h.inv₀.ok.owned hp
      rw [(hsub hn).2, hp]
  have htable : ∀ st : FrameStatus, st ≠ .dealloc → ∀ key, fm.view.table st key = none := by
    intro st hst key
    by_contra hne
    obtain ⟨n, hn⟩ := Option.ne_none_iff_exists'.mp hne
    obtain ⟨p, f, -, hp, hf, -⟩ := h.inv.ok.of_table hn
    exact hst (hf ▸ (hfresh hp).2)
  have halloc : ∀ key, htGet fm.allocated key = none := htable .alloc (by simp)
  have hparent : ∀ key, htGet fm.parents key = none := htable .parent (by simp)
  refine ⟨arr_eq_nil_of_htGet halloc, arr_eq_nil_of_htGet hparent, hframes, hnodes, fun i => ?_⟩
  refine (List.perm_ext_iff_of_nodup (h.inv.ok.listed.nodup i) (h.inv₀.ok.listed.nodup i)).mpr
    fun n => ?_
  have hcontent : fm.view.content = fm₀.view.content := by
    funext m
    change (fm.nodes m).bind fm.frames = (fm₀.nodes m).bind fm₀.frames
    rw [hnodes, hframes]
  rw [h.inv.ok.listed.mem_iff, h.inv₀.ok.listed.mem_iff, hcontent]

/-- **No permanent fragmentation**: after any calls of which every address that was given out has
been taken back, the allocated and the parents table are empty and the bins hold the frames they
were initialised with. -/
theorem tallyRun_returned {numBins numPages : ℕ} (h1 : 1 ≤ numBins) (h2 : numBins ≤ 31)
    (hpos : 0 < numPages) (hfit : userMemStart + numPages * pageSize ≤ 2 ^ 32)
    (ops : List FmOp) :
    ∃ fm₀ out fm, fmInitUserSpace numPages (fmEmpty numBins) = (.ok 0, fm₀) ∧
      tallyRun numBins numPages ops = (.ok out, fm) ∧ (out = [] → fm₀.Returned fm) := by
  obtain ⟨r₀, fm₀, hinit, rfl, htidy₀, -, hext⟩ :=
    wp_returns (fmInitUserSpace_tidy h1 h2 hpos hfit)
  have ho : Out [] fm₀ := ⟨List.nodup_nil, fun a => by simp [hext]⟩
  obtain ⟨out, fm, hrun, htidy, hout⟩ := wp_returns (tallyAll_spec ops htidy₀ ho)
  refine ⟨fm₀, out, fm, hinit, (run_bind hinit).trans hrun, ?_⟩
  rintro rfl
  exact htidy.returned fun a => not_not.mp ((hout.mem_iff a).not.mp (List.not_mem_nil))

/-- A run with three bins and thirteen pages, in which two frames come back in the order in which
they were given out, one of them twice. -/
theorem tallyRun_returned_thirteen :
    ∃ fm₀ fm, fmInitUserSpace 13 (fmEmpty 3) = (.ok 0, fm₀) ∧
      tallyRun 3 13 [.alloc 1, .alloc 2, .dealloc 0x100c000, .dealloc 0x100c000,
        .dealloc 0x1000000] = (.ok [], fm) ∧ fm₀.Returned fm := by
  obtain ⟨fm₀, out, fm, hinit, hrun, hret⟩ := @tallyRun_returned 3 13
    (by decide) (by decide) (by decide) (by decide)
    [.alloc 1, .alloc 2, .dealloc 0x100c000, .dealloc 0x100c000, .dealloc 0x1000000]
  have hout : (tallyRun 3 13 [.alloc 1, .alloc 2, .dealloc 0x100c000, .dealloc 0x100c000,
      .dealloc 0x1000000]).1.toOption = some [] := by decide +kernel
  rw [hrun] at hout
  obtain rfl := Option.some.inj hout
  exact ⟨fm₀, fm, hinit, hrun, hret rfl⟩

end FrameManager

end ShrekOS
