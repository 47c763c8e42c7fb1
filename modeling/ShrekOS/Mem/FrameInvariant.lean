/-
The invariant of the frame manager, and what its operations do to it.

* `FrameManager.Inv`: the structures agree and the frames form a buddy system
  that manages the addresses from `userMemStart` to a limit;
* `FrameManager.Hole`: the same in the middle of coalescing, when one split frame
  has lost its halves;
* `HeadTaken`, `HeadSplit`, `SplitTo`, `Joined`: what the pieces of the operations
  do to the structures, with one specification for each piece (`takeHead_does`,
  `splitHead_does`, `requestSplit_does`, `requestJoin_does`);
* `fmAlloc_does`, `fmDealloc_does`: what the operations do to the structures;
* `fmAlloc_spec`, `fmDealloc_spec`: **what the operations do**, in terms of the
  allocated extents; no fault is reached.
-/
import ShrekOS.Mem.FrameRules
import ShrekOS.Mem.FrameView

namespace ShrekOS

open Kit Kit.Cmd Kit.Buddy

/-! ### Keys -/

/-- The address and the index of a frame do not overlap in its key. -/
lemma or_index {a i : ℕ} (ha : pageSize ∣ a) (hi : i < 31) : a ||| i = a + i := by
  obtain ⟨c, rfl⟩ := ha
  exact (Nat.two_pow_add_eq_or_of_lt (i := 12) (by omega) c).symm

/-- The address and the index can be read off the key. -/
lemma key_inj {a b i j : ℕ} (ha : pageSize ∣ a) (hb : pageSize ∣ b) (hi : i < 31) (hj : j < 31)
    (h : a ||| i = b ||| j) : a = b ∧ i = j := by
  rw [or_index ha hi, or_index hb hj] at h
  obtain ⟨c, rfl⟩ := ha
  obtain ⟨d, rfl⟩ := hb
  simp only [pageSize] at h ⊢
  omega

namespace FrameManager

/-! ### The invariant -/

/-- What holds between any two lines of the operations that matter here: the
structures agree and nothing lives where `malloc` will put new objects. -/
structure Sound (fm : FrameManager) : Prop where
  bins_pos : 0 < fm.numBins
  bins_le : fm.numBins ≤ 31
  ok : fm.view.Ok
  fresh_frame : ∀ {p}, fm.nextPtr ≤ p → fm.frames p = none
  fresh_node : ∀ {n}, fm.nextPtr ≤ n → fm.nodes n = none

/-- **The invariant of the frame manager** for user memory that ends at `lim`. -/
structure Inv (lim : ℕ) (fm : FrameManager) : Prop extends Sound fm where
  lim_le : lim ≤ 2 ^ 32
  forest : Forest pageSize userMemStart lim fm.numBins (blocks fm.frames)

/-- The invariant in the middle of coalescing: the frame `f` at `p` covers its
addresses itself, also when it is a split one whose halves are gone. -/
structure Hole (lim : ℕ) (p : Ptr) (f : Frame) (fm : FrameManager) : Prop extends Sound fm where
  lim_le : lim ≤ 2 ^ 32
  frame : fm.frames p = some f
  status : f.status ≠ .dealloc
  forest : Forest pageSize userMemStart lim fm.numBins
    (blocks (Function.update fm.frames p (some { f with status := .alloc })))

/-- The structures of a frame manager, one by one. -/
lemma view_eq {fm : FrameManager} {v : View} (hn : fm.nodes = v.nodes)
    (hf : fm.frames = v.frames) (ha : htGet fm.allocated = v.table .alloc)
    (hd : htGet fm.deallocated = v.table .dealloc) (hp : htGet fm.parents = v.table .parent)
    (hb : fm.frameBins = v.bins) : fm.view = v := by
  refine View.ext hn hf (funext fun st => ?_) hb
  cases st
  · exact ha
  · exact hd
  · exact hp

section

variable {lim : ℕ} {fm : FrameManager} {n p q : Ptr} {f g : Frame}

lemma pageSize_pos : 0 < pageSize := by decide

lemma ne_of_add_le {a b j k : ℕ} (h : a + k ≤ b) (hj : j < k) : b ≠ a + j := by omega

namespace Inv

lemma addr_dvd (h : fm.Inv lim) (hp : fm.frames p = some f) : pageSize ∣ f.addr :=
  (h.forest.aligned (blocks_of_some hp) :)

lemma index_lt (h : fm.Inv lim) (hp : fm.frames p = some f) : f.i < fm.numBins :=
  (h.forest.ord_lt (blocks_of_some hp) :)

lemma end_le (h : fm.Inv lim) (hp : fm.frames p = some f) :
    f.addr + pageSize * 2 ^ f.i ≤ lim :=
  (h.forest.hi_le (blocks_of_some hp) :)

/-- Two leaf frames that share an address are one. -/
lemma leaf_unique (h : fm.Inv lim) (hp : fm.frames p = some f) (hq : fm.frames q = some g)
    (hf : f.status ≠ .parent) (hg : g.status ≠ .parent) (h1 : f.addr ≤ g.addr)
    (h2 : g.addr < f.addr + pageSize * 2 ^ f.i) : p = q := by
  refine h.forest.leaf_unique (x := g.addr) (blocks_of_some hp) (blocks_of_some hq)
    (by simpa [Frame.block] using hf) (by simpa [Frame.block] using hg) ⟨h1, h2⟩ ⟨le_rfl, ?_⟩
  exact Forest.lo_lt_hi pageSize_pos g.block

/-- A frame is determined by its address and its index. -/
lemma unique (h : fm.Inv lim) (hp : fm.frames p = some f) (hq : fm.frames q = some g)
    (ha : f.addr = g.addr) (hi : f.i = g.i) : p = q :=
  h.forest.unique pageSize_pos _ (blocks_of_some hp) (blocks_of_some hq) rfl ha hi

/-- A leaf frame leaves the place of its address in the other leaf table free. -/
lemma addr_free (h : fm.Inv lim) (hp : fm.frames p = some f) (hf : f.status ≠ .parent)
    (st : FrameStatus) (hst : st ≠ .parent) (hne : f.status ≠ st) :
    fm.view.table st f.addr = none := by
  by_contra hk
  obtain ⟨m, hm⟩ := Option.ne_none_iff_exists'.mp hk
  obtain ⟨q, g, -, hq, hg, hkey⟩ := h.ok.of_table hm
  rw [Frame.key, if_neg (by simpa [hg] using hst)] at hkey
  have hpos : 0 < pageSize * 2 ^ f.i := by have := pageSize_pos; positivity
  have hpq : p = q := h.leaf_unique hp hq hf (hg ▸ hst) hkey.ge (by omega)
  subst hpq
  exact hne (Option.some.inj (hp.symm.trans hq) ▸ hg)

/-- A leaf frame leaves the place of its key among the parents free. -/
lemma key_free (h : fm.Inv lim) (hp : fm.frames p = some f) (hf : f.status ≠ .parent) :
    fm.view.table .parent (f.addr ||| f.i) = none := by
  by_contra hk
  obtain ⟨m, hm⟩ := Option.ne_none_iff_exists'.mp hk
  obtain ⟨q, g, -, hq, hg, hkey⟩ := h.ok.of_table hm
  rw [Frame.key, if_pos hg] at hkey
  have hib := h.index_lt hp
  have hig := h.index_lt hq
  have hle := h.bins_le
  obtain ⟨ha, hi⟩ := key_inj (h.addr_dvd hq) (h.addr_dvd hp) (by omega) (by omega) hkey
  have hpq : p = q := h.unique hp hq ha.symm hi.symm
  subst hpq
  exact hf (Option.some.inj (hp.symm.trans hq) ▸ hg)

end Inv

/-- Recolouring one frame in a set of frames. -/
lemma forest_recolor {lim top : ℕ} {frames : Ptr → Option Frame} (st : FrameStatus)
    (h : Forest pageSize userMemStart lim top (blocks frames)) (hp : frames p = some f)
    (hs : f.status ≠ .parent) (hst : st ≠ .parent) :
    Forest pageSize userMemStart lim top
      (blocks (Function.update frames p (some { f with status := st }))) := by
  refine h.recolor (c := { f with status := st }.block) (blocks_of_some hp)
    (blocks_of_some (by simp)) ⟨rfl, rfl, rfl, rfl, by simp [Frame.block, hs, hst]⟩
    fun z hz => by simp [blocks, Function.update_of_ne hz]

/-- What an operation leads to: the invariant, the same bins, and the extents. -/
structure Leads (lim : ℕ) (fm : FrameManager) (extent : ℕ → Option ℕ) (fm' : FrameManager) :
    Prop where
  inv : fm'.Inv lim
  numBins : fm'.numBins = fm.numBins
  extent : fm'.view.extent = extent

/-- The structures have become `v`, and `malloc` has given out `k` objects. -/
structure Turned (fm : FrameManager) (v : View) (k : ℕ) (fm' : FrameManager) : Prop where
  view : fm'.view = v
  numBins : fm'.numBins = fm.numBins
  nextPtr : fm'.nextPtr = fm.nextPtr + k

lemma Sound.lt_of_frame (h : fm.Sound) (hp : fm.frames p = some f) : p < fm.nextPtr := by
  by_contra hle
  simp [h.fresh_frame (not_lt.mp hle)] at hp

lemma Sound.lt_of_node (h : fm.Sound) (hn : fm.nodes n = some p) : n < fm.nextPtr := by
  by_contra hle
  simp [h.fresh_node (not_lt.mp hle)] at hn

/-- A frame manager with the structures of a change of status. -/
lemma Sound.restatus {fm' : FrameManager} {st : FrameStatus} (h : fm.Sound)
    (hn : fm.nodes n = some p) (hp : fm.frames p = some f) (hne : f.status ≠ st)
    (hfree : fm.view.table st { f with status := st }.key = none)
    (ht : fm.Turned (fm.view.restatus n p f st) 0 fm') :
    fm'.Sound ∧ fm'.frames = Function.update fm.frames p (some { f with status := st }) := by
  obtain ⟨hview, hbins, hnext⟩ := ht
  rw [add_zero] at hnext
  have hfr : fm'.frames = Function.update fm.frames p (some { f with status := st }) := by
    have := congrArg View.frames hview
    rwa [View.restatus_frames] at this
  have hnd : fm'.nodes = fm.nodes := by
    have := congrArg View.nodes hview
    rwa [View.restatus_nodes hn] at this
  refine ⟨⟨hbins ▸ h.bins_pos, hbins ▸ h.bins_le, hview ▸ h.ok.restatus st hn hp hne hfree, ?_, ?_⟩,
    hfr⟩
  · intro q hq
    rw [hnext] at hq
    have hqp : q ≠ p := (lt_of_lt_of_le (h.lt_of_frame hp) hq).ne'
    rw [hfr, Function.update_of_ne hqp, h.fresh_frame hq]
  · intro m hm
    rw [hnd, h.fresh_node (hnext ▸ hm)]

/-- Changing the status of a leaf between allocated and deallocated. -/
lemma Inv.recolored {fm' : FrameManager} {st : FrameStatus} (h : fm.Inv lim)
    (hn : fm.nodes n = some p) (hp : fm.frames p = some f) (hs : f.status ≠ .parent)
    (hst : st ≠ .parent) (hne : f.status ≠ st)
    (ht : fm.Turned (fm.view.restatus n p f st) 0 fm') : fm'.Inv lim := by
  have hfree : fm.view.table st { f with status := st }.key = none := by
    rw [Frame.key, if_neg hst]
    exact h.addr_free hp hs _ hst hne
  obtain ⟨hsound, hfr⟩ := h.toSound.restatus hn hp hne hfree ht
  exact { hsound with
    lim_le := h.lim_le
    forest := by
      rw [hfr, ht.numBins]
      exact forest_recolor _ h.forest hp hs hst }

/-- A deallocated frame becomes allocated. -/
lemma Leads.taken {fm' : FrameManager} (h : fm.Inv lim) (hn : fm.nodes n = some p)
    (hp : fm.frames p = some f) (hst : f.status = .dealloc)
    (ht : fm.Turned (fm.view.restatus n p f .alloc) 0 fm') :
    Leads lim fm (Function.update fm.view.extent f.addr (some (2 ^ f.i))) fm' where
  inv := h.recolored hn hp (by simp [hst]) (by simp) (by simp [hst]) ht
  numBins := ht.numBins
  extent := by
    have hok := h.ok.erase hn hp
    rw [ht.view, View.restatus, View.extent_insert_alloc hok (by simp) (by simp) rfl,
      View.extent_erase h.ok hn hp (by simp [hst]), h.ok.pages hp]

/-! ### Allocating from a bin -/

/-- The frame `f` at `p`, with node `n`, is the first one of bin `j`. -/
structure Head (fm : FrameManager) (j : ℕ) (n p : Ptr) (f : Frame) : Prop where
  first : (fm.frameBins j).head? = some n
  node : fm.nodes n = some p
  frame : fm.frames p = some f
  free : f.status = .dealloc
  index : f.i = j

lemma Inv.exists_head (h : fm.Inv lim) {j : ℕ} (hne : fm.frameBins j ≠ []) :
    ∃ n p f, fm.Head j n p f := by
  obtain ⟨n, l, hl⟩ := List.exists_cons_of_ne_nil hne
  obtain ⟨p, f, hn, hp, hst, hi⟩ := h.ok.of_mem_bin (i := j) (n := n) (by simp [view, hl])
  exact ⟨n, p, f, by rw [hl, List.head?_cons], hn, hp, hst, hi⟩

lemma Head.bin_eq {j : ℕ} (h : fm.Head j n p f) :
    fm.frameBins j = n :: (fm.frameBins j).tail := by
  obtain ⟨l, hl⟩ := List.head?_eq_some_iff.mp h.first
  rw [hl, List.tail_cons]

/-- The first frame of bin `j`, at address `a`, has been allocated. -/
def HeadTaken (fm : FrameManager) (j a : ℕ) (fm' : FrameManager) : Prop :=
  ∃ n p f, fm.Head j n p f ∧ f.addr = a ∧ fm.Turned (fm.view.restatus n p f .alloc) 0 fm'

/-- Taking the first frame of a bin. -/
lemma takeHead_does (h : fm.Inv lim) {j : ℕ} (hj : j < fm.numBins) (hne : fm.frameBins j ≠ []) :
    wp (takeHead j) (fun a fm' => fm.HeadTaken j a fm') (fun _ _ => False) fm := by
  obtain ⟨n, p, f, hhead⟩ := h.exists_head hne
  have hl := hhead.bin_eq
  obtain ⟨-, hn, hp, hst, rfl⟩ := hhead
  generalize (fm.frameBins f.i).tail = l at hl
  have hfree := h.addr_free hp (by simp [hst]) .alloc (by simp) (by simp [hst])
  have hput := (htGet_htPut (t := fm.allocated) _ hfree n).2
  have hrem := (htGet_htRemove fm.deallocated f.addr).2
  simp only [takeHead, wp_bind, wp_llSize, wp_require, wp_llHead, wp_llUnlinkNode,
    wp_llNodeGetData, wp_deref, wp_removeDeallocated, wp_putAllocated, wp_setStatus, wp_pure,
    hl, hj, hn, hp, hst, List.head?_cons]
  simp only [List.length_cons, List.mem_cons, true_or, not_true_eq_false,
    Nat.zero_lt_succ, IsEmpty.forall_iff, forall_const, and_true]
  refine ⟨n, p, f, ⟨by rw [hl, List.head?_cons], hn, hp, hst, rfl⟩, rfl,
    ⟨view_eq ?_ ?_ ?_ ?_ ?_ ?_, rfl, rfl⟩⟩
  · simp [View.restatus, view, ← hn]
  · simp [View.restatus, view]
  · simp [View.restatus, view, hput, hst, Frame.key]
  · simp [View.restatus, view, hrem, hst, Frame.key]
  · simp [View.restatus, view, hst]
  · simp [View.restatus, View.insert, View.erase, view, hst, Frame.binOf, hl]

/-- What was allocated at the address of the frame that is taken, and is now. -/
lemma HeadTaken.leads {j a : ℕ} {fm' : FrameManager} (h : fm.Inv lim) (ht : fm.HeadTaken j a fm') :
    fm.view.extent a = none ∧
      Leads lim fm (Function.update fm.view.extent a (some (2 ^ j))) fm' := by
  obtain ⟨n, p, f, hhead, rfl, hturn⟩ := ht
  have hfree := h.addr_free hhead.frame (by simp [hhead.free]) .alloc (by simp)
    (by simp [hhead.free])
  refine ⟨(View.extent_eq_none_iff h.ok _).mpr hfree, ?_⟩
  have hleads := Leads.taken h hhead.node hhead.frame hhead.free hturn
  rwa [hhead.index] at hleads

/-! ### Splitting -/

/-- The left half of a frame `f` at `p`, of index `k`, with the right half at `r`. -/
def leftHalf (f : Frame) (k : ℕ) (p r : Ptr) : Frame :=
  ⟨f.addr, 2 ^ k, .dealloc, k, some r, some p⟩

/-- The right half of a frame `f` at `p`, of index `k`, with the left half at `l`. -/
def rightHalf (f : Frame) (k : ℕ) (p l : Ptr) : Frame :=
  ⟨f.addr + pageSize * 2 ^ k, 2 ^ k, .dealloc, k, some l, some p⟩

/-- The structures after the frame `f` at `p` was split, with new objects from
`next` on. -/
def splitView (v : View) (n p : Ptr) (f : Frame) (k : ℕ) (next : Ptr) : View :=
  ((v.restatus n p f .parent).insert (next + 2) next (leftHalf f k p (next + 1))).insert
    (next + 3) (next + 1) (rightHalf f k p next)

lemma splitView_frames (v : View) (n p : Ptr) (f : Frame) (k : ℕ) (next : Ptr) :
    (splitView v n p f k next).frames = Function.update (Function.update (Function.update v.frames p
      (some { f with status := .parent })) next (some (leftHalf f k p (next + 1)))) (next + 1)
      (some (rightHalf f k p next)) := by
  rw [splitView, View.insert_frames, View.insert_frames, View.restatus_frames]

lemma splitView_nodes {v : View} (hn : v.nodes n = some p) (f : Frame) (k : ℕ) (next : Ptr) :
    (splitView v n p f k next).nodes =
      Function.update (Function.update v.nodes (next + 2) (some next)) (next + 3)
        (some (next + 1)) := by
  rw [splitView, View.insert_nodes, View.insert_nodes, View.restatus_nodes hn]

/-- The address of the right half of a deallocated frame is free. -/
lemma Inv.right_free {k : ℕ} (h : fm.Inv lim) (hp : fm.frames p = some f)
    (hst : f.status = .dealloc) (hk : f.i = k + 1) :
    fm.view.table .dealloc (f.addr + pageSize * 2 ^ k) = none := by
  have hpos : 0 < pageSize * 2 ^ k := by have := pageSize_pos; positivity
  by_contra hne
  obtain ⟨m, hm⟩ := Option.ne_none_iff_exists'.mp hne
  obtain ⟨q, g, -, hq, hg, hkey⟩ := h.ok.of_table hm
  rw [Frame.key, if_neg (by simp [hg])] at hkey
  have hpq : p = q := h.leaf_unique hp hq (by simp [hst]) (by simp [hg]) (by omega)
    (by rw [hk, pow_succ, ← mul_assoc]; omega)
  subst hpq
  obtain rfl := Option.some.inj (hp.symm.trans hq)
  omega

/-- A node that `malloc` has not given out is in no bin. -/
lemma Sound.fresh_not_mem (h : fm.Sound) (hn : fm.nextPtr ≤ n) (j : ℕ) : n ∉ fm.frameBins j := by
  intro hj
  obtain ⟨p, f, hnp, -⟩ := h.ok.of_mem_bin hj
  change fm.nodes n = some p at hnp
  simp [h.fresh_node hn] at hnp

/-- A deallocated frame is split. -/
lemma Leads.split {fm' : FrameManager} {k : ℕ} (h : fm.Inv lim) (hn : fm.nodes n = some p)
    (hp : fm.frames p = some f) (hst : f.status = .dealloc) (hk : f.i = k + 1)
    (ht : fm.Turned (splitView fm.view n p f k fm.nextPtr) 4 fm') :
    Leads lim fm fm.view.extent fm' := by
  obtain ⟨hview, hbins, hnext⟩ := ht
  have hpos : 0 < pageSize * 2 ^ k := by have := pageSize_pos; positivity
  have hpN := h.lt_of_frame hp
  have hnN := h.lt_of_node hn
  have hfN : ∀ j, fm.frames (fm.nextPtr + j) = none := fun j => h.fresh_frame (Nat.le_add_right _ j)
  have hdN : ∀ j, fm.nodes (fm.nextPtr + j) = none := fun j => h.fresh_node (Nat.le_add_right _ j)
  have hp0 : fm.nextPtr ≠ p := hpN.ne'
  have hp1 : fm.nextPtr + 1 ≠ p := (hpN.trans (Nat.lt_succ_self _)).ne'
  have hright := h.right_free hp hst hk
  -- the structures agree after each of the three changes
  have hok := h.ok.restatus .parent hn hp (by simp [hst])
    (by simpa [Frame.key] using h.key_free hp (by simp [hst]))
  have hnodes := View.restatus_nodes (v := fm.view) hn f .parent
  have hframes := View.restatus_frames fm.view n p f .parent
  have htable := View.restatus_table_old fm.view n p (f := f) .parent (by simp [hst])
  rw [hst, Frame.key, if_neg (by simp [hst])] at htable
  have hn2 : (fm.view.restatus n p f .parent).nodes (fm.nextPtr + 2) = none := by
    rw [hnodes]; exact hdN 2
  have hf2 : (fm.view.restatus n p f .parent).frames fm.nextPtr = none := by
    rw [hframes, Function.update_of_ne hp0]; exact hfN 0
  have hok2 := hok.insert (f := leftHalf f k p (fm.nextPtr + 1)) hn2 hf2
    (by simp [leftHalf, Frame.key, htable]) rfl
  have hn3 : ((fm.view.restatus n p f .parent).insert (fm.nextPtr + 2) fm.nextPtr
      (leftHalf f k p (fm.nextPtr + 1))).nodes (fm.nextPtr + 3) = none := by
    rw [View.insert_nodes, Function.update_of_ne (by simp), hnodes]; exact hdN 3
  have hf3 : ((fm.view.restatus n p f .parent).insert (fm.nextPtr + 2) fm.nextPtr
      (leftHalf f k p (fm.nextPtr + 1))).frames (fm.nextPtr + 1) = none := by
    rw [View.insert_frames, Function.update_of_ne (by simp), hframes, Function.update_of_ne hp1]
    exact hfN 1
  have hok3 := hok2.insert (f := rightHalf f k p fm.nextPtr) hn3 hf3
    (by simp [leftHalf, rightHalf, Frame.key, htable, hright, hpos.ne']) rfl
  have hfr : fm'.frames = Function.update (Function.update (Function.update fm.frames p
      (some { f with status := .parent })) fm.nextPtr (some (leftHalf f k p (fm.nextPtr + 1))))
      (fm.nextPtr + 1) (some (rightHalf f k p fm.nextPtr)) :=
    (congrArg View.frames hview).trans (splitView_frames fm.view n p f k fm.nextPtr)
  have hnd : fm'.nodes = Function.update (Function.update fm.nodes (fm.nextPtr + 2)
      (some fm.nextPtr)) (fm.nextPtr + 3) (some (fm.nextPtr + 1)) :=
    (congrArg View.nodes hview).trans (splitView_nodes (v := fm.view) hn f k fm.nextPtr)
  refine ⟨⟨⟨hbins ▸ h.bins_pos, hbins ▸ h.bins_le, by rw [hview]; exact hok3, ?_, ?_⟩,
    h.lim_le, ?_⟩, hbins, ?_⟩
  · intro q hq
    rw [hnext] at hq
    have hqN : fm.nextPtr ≤ q := le_trans (Nat.le_add_right _ 4) hq
    have hq0 : q ≠ fm.nextPtr := ne_of_add_le hq (j := 0) (by omega)
    rw [hfr, Function.update_of_ne (ne_of_add_le hq (j := 1) (by omega)), Function.update_of_ne hq0,
      Function.update_of_ne (hpN.trans_le hqN).ne', h.fresh_frame hqN]
  · intro m hm
    rw [hnext] at hm
    rw [hnd, Function.update_of_ne (ne_of_add_le hm (j := 3) (by omega)),
      Function.update_of_ne (ne_of_add_le hm (j := 2) (by omega)),
      h.fresh_node (le_trans (Nat.le_add_right _ 4) hm)]
  · rw [hbins]
    refine h.forest.split (l := fm.nextPtr) (r := fm.nextPtr + 1) (k := k) .free
      (blocks_of_some hp) (by simp [Frame.block, hst]) hk ?_ ?_ (by simp) (by simp) ?_ ?_ ?_ ?_
    · exact congrArg (Option.map _) (hfN 0)
    · exact congrArg (Option.map _) (hfN 1)
    · refine (blocks_of_some (f := { f with status := .parent }) ?_).trans rfl
      rw [hfr, Function.update_of_ne hp1.symm, Function.update_of_ne hp0.symm, Function.update_self]
    · refine (blocks_of_some (f := leftHalf f k p (fm.nextPtr + 1)) ?_).trans rfl
      rw [hfr, Function.update_of_ne (by simp), Function.update_self]
    · refine (blocks_of_some (f := rightHalf f k p fm.nextPtr) ?_).trans rfl
      rw [hfr, Function.update_self]
    · intro z h1 h2 h3
      rw [blocks, hfr, Function.update_of_ne h3, Function.update_of_ne h2,
        Function.update_of_ne h1, blocks]
  · rw [hview, splitView, View.extent_insert hok2 hn3 hf3 (by simp [rightHalf]),
      View.extent_insert hok hn2 hf2 (by simp [leftHalf]), View.restatus,
      View.extent_insert (h.ok.erase hn hp) (by simp) (by simp) (by simp),
      View.extent_erase h.ok hn hp (by simp [hst])]

/-- The first frame of bin `k + 1` has been split. -/
def HeadSplit (fm : FrameManager) (k : ℕ) (fm' : FrameManager) : Prop :=
  ∃ n p f, fm.Head (k + 1) n p f ∧ fm.Turned (splitView fm.view n p f k fm.nextPtr) 4 fm'

/-- Splitting the first frame of a bin. -/
lemma splitHead_does (h : fm.Inv lim) {k : ℕ} (hk : k + 1 < fm.numBins)
    (hne : fm.frameBins (k + 1) ≠ []) :
    wp (splitHead (k + 1)) (fun r fm' => r = 0 ∧ fm.HeadSplit k fm') (fun _ _ => False) fm := by
  obtain ⟨n, p, f, hhead⟩ := h.exists_head hne
  have hl := hhead.bin_eq
  obtain ⟨hfirst, hn, hp, hst, hi⟩ := hhead
  generalize (fm.frameBins (k + 1)).tail = l at hl
  have hpar := (htGet_htPut (t := fm.parents) _ (h.key_free hp (by simp [hst])) n).2
  have hrem := (htGet_htRemove fm.deallocated f.addr).2
  have hhalf : f.numPages / 2 = 2 ^ k := by
    rw [h.ok.pages hp, hi, pow_succ, Nat.mul_div_cancel _ two_pos]
  have hend := h.end_le hp
  have hlim := h.lim_le
  have hright : (f.addr + 2 ^ k * pageSize) % 2 ^ 32 = f.addr + pageSize * 2 ^ k := by
    have hpos : 0 < pageSize * 2 ^ k := by have := pageSize_pos; positivity
    rw [hi, pow_succ, ← mul_assoc] at hend
    rw [mul_comm, Nat.mod_eq_of_lt (by omega)]
  have hpos : 0 < pageSize * 2 ^ k := by have := pageSize_pos; positivity
  have hk' : k < fm.numBins := by omega
  -- the two new nodes are in no bin when they are linked
  have hbin : ∀ j m, fm.nextPtr ≤ m →
      m ∉ Function.update fm.frameBins (k + 1) ((n :: l).erase n) j := by
    intro j m hm
    by_cases hj : j = k + 1
    · subst hj
      rw [Function.update_self, ← hl]
      exact fun hmem => h.fresh_not_mem hm _ (List.mem_of_mem_erase hmem)
    · rw [Function.update_of_ne hj]
      exact h.fresh_not_mem hm j
  have hlink1 := fun j => hbin j (fm.nextPtr + 1 + 1) (Nat.le_add_right _ 2)
  have hlink2 : ∀ j, fm.nextPtr + 1 + 1 + 1 ∉
      Function.update (Function.update fm.frameBins (k + 1) ((n :: l).erase n)) k
        (Function.update fm.frameBins (k + 1) ((n :: l).erase n) k ++ [fm.nextPtr + 1 + 1]) j := by
    intro j
    by_cases hj : j = k
    · subst hj
      rw [Function.update_self, List.mem_append, not_or]
      exact ⟨hbin j _ (Nat.le_add_right _ 3), by simp⟩
    · rw [Function.update_of_ne hj]
      exact hbin j _ (Nat.le_add_right _ 3)
  have hput1 := (htGet_htPut (t := (htRemove fm.deallocated f.addr).2) f.addr
    (by rw [hrem, Function.update_self]) (fm.nextPtr + 1 + 1)).2
  have hput2 := (htGet_htPut (t := (htPut (htRemove fm.deallocated f.addr).2 f.addr
    (fm.nextPtr + 1 + 1)).2) (f.addr + pageSize * 2 ^ k)
    (by rw [hput1, hrem, Function.update_of_ne (by omega), Function.update_of_ne (by omega)]
        exact h.right_free hp hst hi) (fm.nextPtr + 1 + 1 + 1)).2
  simp only [splitHead, wp_bind, wp_llSize, wp_require, wp_llHead, wp_llUnlinkNode,
    wp_llNodeGetData, wp_deref, wp_removeDeallocated, wp_putParents, wp_setStatus, wp_pure,
    wp_malloc, wp_frameInit, wp_llNodeInit, wp_llLinkNodeLast, wp_putDeallocated, hhalf, hright,
    hl, hk, hn, hp, hst, List.head?_cons]
  simp only [List.length_cons, List.mem_cons, true_or, not_true_eq_false, Nat.zero_lt_succ,
    IsEmpty.forall_iff, forall_const, and_true, true_and, Nat.add_sub_cancel, hk', hlink1, hlink2,
    not_false_eq_true, implies_true]
  refine ⟨n, p, f, ⟨hfirst, hn, hp, hst, hi⟩, ⟨view_eq ?_ ?_ ?_ ?_ ?_ ?_, rfl, rfl⟩⟩
  · rw [splitView_nodes (v := fm.view) hn]
    rfl
  · simp [splitView_frames, view, leftHalf, rightHalf]
  · simp [splitView, View.restatus, view, hst, leftHalf, rightHalf]
  · simp [splitView, View.restatus, view, hst, leftHalf, rightHalf, Frame.key, hput2, hput1, hrem]
  · simp [splitView, View.restatus, view, hst, leftHalf, rightHalf, Frame.key, hpar]
  · simp [splitView, View.restatus, View.insert, View.erase, view, hst, Frame.binOf, hl, leftHalf,
      rightHalf, hi]

lemma HeadSplit.leads {k : ℕ} {fm' : FrameManager} (h : fm.Inv lim) (hs : fm.HeadSplit k fm') :
    Leads lim fm fm.view.extent fm' := by
  obtain ⟨n, p, f, hhead, hturn⟩ := hs
  exact Leads.split h hhead.node hhead.frame hhead.free hhead.index hturn

/-- The two halves are at the end of the bin below; the bins further below are as before. -/
lemma HeadSplit.bins {k : ℕ} {fm' : FrameManager} (hs : fm.HeadSplit k fm') :
    fm'.frameBins k = fm.frameBins k ++ [fm.nextPtr + 2, fm.nextPtr + 3] ∧
      ∀ j < k, fm'.frameBins j = fm.frameBins j := by
  obtain ⟨n, p, f, hhead, hturn⟩ := hs
  have hbins : fm'.frameBins = (splitView fm.view n p f k fm.nextPtr).bins :=
    congrArg View.bins hturn.view
  rw [hbins]
  refine ⟨?_, fun j hj => ?_⟩
  · simp [splitView, View.restatus, View.insert, View.erase, Frame.binOf, leftHalf, rightHalf,
      hhead.free, hhead.index, view]
  · simp [splitView, View.restatus, View.insert, View.erase, Frame.binOf, leftHalf, rightHalf,
      hhead.free, hhead.index, view, Function.update_of_ne hj.ne,
      Function.update_of_ne (show j ≠ k + 1 by omega)]

/-- Two operations in a row. -/
lemma Leads.trans {fm₁ fm₂ : FrameManager} {e₁ e₂ : ℕ → Option ℕ} (h₁ : Leads lim fm e₁ fm₁)
    (h₂ : Leads lim fm₁ e₂ fm₂) : Leads lim fm e₂ fm₂ :=
  ⟨h₂.inv, h₂.numBins.trans h₁.numBins, h₂.extent⟩

/-- An operation that changes nothing. -/
lemma Leads.refl (h : fm.Inv lim) : Leads lim fm fm.view.extent fm := ⟨h, rfl, rfl⟩

/-- Splits from the first bin with a frame above bin `k` down to bin `k`. -/
inductive SplitTo (fm : FrameManager) : ℕ → FrameManager → Prop
  | here {k : ℕ} {fm' : FrameManager} : fm.HeadSplit k fm' → SplitTo fm k fm'
  | above {k : ℕ} {fm₁ fm' : FrameManager} : fm.frameBins (k + 1) = [] →
      SplitTo fm (k + 1) fm₁ → fm₁.HeadSplit k fm' → SplitTo fm k fm'

lemma SplitTo.leads {k : ℕ} {fm' : FrameManager} (hs : SplitTo fm k fm') (h : fm.Inv lim) :
    Leads lim fm fm.view.extent fm' := by
  induction hs with
  | here hsplit => exact hsplit.leads h
  | above _ _ hsplit ih => exact ih.trans (ih.extent ▸ hsplit.leads ih.inv)

/-- The bin that the splits lead to has two more frames, and the ones below are as before. -/
lemma SplitTo.bins {k : ℕ} {fm' : FrameManager} (hs : SplitTo fm k fm') :
    (∃ n m, fm'.frameBins k = fm.frameBins k ++ [n, m]) ∧
      ∀ j < k, fm'.frameBins j = fm.frameBins j := by
  induction hs with
  | here hsplit => exact ⟨⟨_, _, hsplit.bins.1⟩, hsplit.bins.2⟩
  | @above k fm₁ fm' _ _ hsplit ih =>
      obtain ⟨hbin, hbelow⟩ := hsplit.bins
      refine ⟨⟨_, _, by rw [hbin, ih.2 k (Nat.lt_succ_self k)]⟩, fun j hj => ?_⟩
      rw [hbelow j hj, ih.2 j (by omega)]

/-- There was a frame to split. -/
lemma SplitTo.exists_bin {k : ℕ} {fm' : FrameManager} (hs : SplitTo fm k fm') (h : fm.Inv lim) :
    ∃ j, k < j ∧ j < fm.numBins ∧ fm.frameBins j ≠ [] := by
  induction hs with
  | @here k fm' hsplit =>
      obtain ⟨n, p, f, hhead, -⟩ := hsplit
      have hlt := h.index_lt hhead.frame
      rw [hhead.index] at hlt
      exact ⟨k + 1, Nat.lt_succ_self k, hlt, by rw [hhead.bin_eq]; simp⟩
  | @above k fm₁ fm' _ _ _ ih =>
      obtain ⟨j, hj, hlt, hne⟩ := ih
      exact ⟨j, by omega, hlt, hne⟩

/-- `request_split` fails without effect when there is no frame in the bin or above, and
splits down to the bin below otherwise; the fuel outlasts the bins above. -/
theorem requestSplit_does : ∀ (fuel k : ℕ) {fm : FrameManager}, fm.Inv lim →
    k < fm.numBins → fm.numBins ≤ fuel + k →
    wp (requestSplit fuel (k + 1)) (fun r fm' =>
      (r < 0 ∧ fm' = fm ∧ ∀ j, k < j → j < fm.numBins → fm.frameBins j = []) ∨
        (r = 0 ∧ SplitTo fm k fm')) (fun _ _ => False) fm := by
  intro fuel
  induction fuel with
  | zero =>
      intro k fm h hlt hfuel
      omega
  | succ fuel ih =>
      intro k fm h hlt hfuel
      rw [requestSplit, wp_bind, wp_gets, wp_ite]
      refine ⟨fun hi => .inl ⟨by simp, rfl, fun j h1 h2 => by omega⟩, fun hi => ?_⟩
      rw [not_or, not_le] at hi
      rw [wp_bind, wp_llSize]
      refine ⟨fun _ => ?_, fun hge => absurd hi.1 hge⟩
      rw [wp_ite]
      constructor
      · intro hlen
        have hempty : fm.frameBins (k + 1) = [] := List.length_eq_zero_iff.mp hlen
        rw [wp_bind]
        refine wp_imp (ih (k + 1) h hi.1 (by omega)) fun r fm₁ hr => ?_
        rw [wp_ite]
        rcases hr with ⟨hr, rfl, hnone⟩ | ⟨rfl, hs⟩
        · refine ⟨fun _ => .inl ⟨by simp, rfl, fun j h1 h2 => ?_⟩, fun h' => absurd hr h'⟩
          rcases Nat.eq_or_lt_of_le (Nat.succ_le_of_lt h1) with rfl | h1
          · exact hempty
          · exact hnone j h1 h2
        · refine ⟨fun h' => absurd h' (by simp), fun _ => ?_⟩
          have hl := hs.leads h
          obtain ⟨n, m, hbin⟩ := hs.bins.1
          refine wp_imp (splitHead_does hl.inv (hl.numBins.symm ▸ hi.1) (by rw [hbin]; simp))
            fun r fm₂ hr => .inr ⟨hr.1, .above hempty hs hr.2⟩
      · intro hlen
        exact wp_imp (splitHead_does h hi.1 (by simpa using hlen))
          fun r fm₂ hr => .inr ⟨hr.1, .here hr.2⟩

/-! ### Allocating -/

/-- The bin that `fm_alloc` picks has frames of at least the size asked for. -/
lemma findBin_spec (numPages : ℕ) : ∀ j, numPages ≤ 2 ^ j →
    findBin numPages j ≤ j ∧ numPages ≤ 2 ^ findBin numPages j := by
  intro j
  induction j with
  | zero => exact fun h => ⟨le_rfl, h⟩
  | succ j ih =>
      intro h
      rw [findBin]
      split_ifs with hj
      · exact ⟨le_rfl, h⟩
      · obtain ⟨h1, h2⟩ := ih (by omega)
        exact ⟨by omega, h2⟩

/-- A frame of bin `j` at address `a` has been allocated, after splits if the bin was empty. -/
inductive Allocated (fm : FrameManager) (j a : ℕ) (fm' : FrameManager) : Prop
  | first : fm.HeadTaken j a fm' → Allocated fm j a fm'
  | split {fm₁ : FrameManager} : fm.frameBins j = [] → SplitTo fm j fm₁ → fm₁.HeadTaken j a fm' →
      Allocated fm j a fm'

lemma Allocated.leads {j a : ℕ} {fm' : FrameManager} (h : fm.Inv lim) (ha : fm.Allocated j a fm') :
    fm.view.extent a = none ∧
      Leads lim fm (Function.update fm.view.extent a (some (2 ^ j))) fm' := by
  cases ha with
  | first ht => exact ht.leads h
  | split _ hs ht =>
      have hl := hs.leads h
      have htaken := ht.leads hl.inv
      rw [hl.extent] at htaken
      exact ⟨htaken.1, hl.trans htaken.2⟩

/-- There was a frame in the bin or above it. -/
lemma Allocated.exists_bin {j a : ℕ} {fm' : FrameManager} (h : fm.Inv lim)
    (ha : fm.Allocated j a fm') : ∃ k, j ≤ k ∧ k < fm.numBins ∧ fm.frameBins k ≠ [] := by
  cases ha with
  | first ht =>
      obtain ⟨n, p, f, hhead, -⟩ := ht
      have hlt := h.index_lt hhead.frame
      rw [hhead.index] at hlt
      exact ⟨j, le_rfl, hlt, by rw [hhead.bin_eq]; simp⟩
  | split _ hs _ =>
      obtain ⟨k, hk, hlt, hne⟩ := hs.exists_bin h
      exact ⟨k, hk.le, hlt, hne⟩

/-- What `fm_alloc` does to the structures: it fails without effect on a number of pages that no
bin is for, and when there is no frame in the bin for it or above; otherwise it allocates a
frame of that bin. -/
theorem fmAlloc_does (h : fm.Inv lim) (numPages : ℕ) :
    wp (fmAlloc numPages) (fun r fm' =>
      match r with
      | .error e => e < 0 ∧ fm' = fm ∧ (1 ≤ numPages → numPages ≤ 2 ^ (fm.numBins - 1) →
          ∀ k, findBin numPages (fm.numBins - 1) ≤ k → k < fm.numBins → fm.frameBins k = [])
      | .ok a => 1 ≤ numPages ∧ numPages ≤ 2 ^ (fm.numBins - 1) ∧
          fm.Allocated (findBin numPages (fm.numBins - 1)) a fm') (fun _ _ => False) fm := by
  rw [fmAlloc, wp_bind, wp_gets, wp_ite]
  refine ⟨fun hlarge => ⟨by simp, rfl, fun _ hle => by omega⟩, fun hle => ?_⟩
  rw [wp_ite]
  refine ⟨fun hzero => ⟨by simp, rfl, fun hpos => by omega⟩, fun hpos => ?_⟩
  obtain ⟨hj, -⟩ := findBin_spec numPages (fm.numBins - 1) (by omega)
  have hjlt : findBin numPages (fm.numBins - 1) < fm.numBins := by have := h.bins_pos; omega
  dsimp only
  generalize findBin numPages (fm.numBins - 1) = j at hj hjlt ⊢
  rw [wp_bind, wp_llSize]
  refine ⟨fun _ => ?_, fun hge => absurd hjlt hge⟩
  rw [wp_ite]
  constructor
  · intro hlen
    have hempty : fm.frameBins j = [] := List.length_eq_zero_iff.mp hlen
    rw [wp_bind]
    refine wp_imp (requestSplit_does (fm.numBins + 1) j h hjlt (by omega)) fun r fm₁ hr => ?_
    rw [wp_ite]
    rcases hr with ⟨hr, rfl, hnone⟩ | ⟨rfl, hs⟩
    · refine ⟨fun _ => ⟨by simp, rfl, fun _ _ k h1 h2 => ?_⟩, fun h' => absurd hr h'⟩
      rcases Nat.eq_or_lt_of_le h1 with rfl | h1
      · exact hempty
      · exact hnone k h1 h2
    · refine ⟨fun h' => absurd h' (by simp), fun _ => ?_⟩
      rw [wp_bind]
      have hl := hs.leads h
      obtain ⟨n, m, hbin⟩ := hs.bins.1
      refine wp_imp (takeHead_does hl.inv (hl.numBins.symm ▸ hjlt) (by rw [hbin]; simp))
        fun a fm₂ ha => ⟨by omega, by omega, .split hempty hs ha⟩
  · intro hlen
    rw [wp_bind]
    refine wp_imp (takeHead_does h hjlt (by simpa using hlen))
      fun a fm₂ ha => ⟨by omega, by omega, .first ha⟩

/-- **What `fm_alloc` does**: it fails without effect or allocates, at an address
where nothing was allocated, a frame of at least as many pages as asked for. -/
theorem fmAlloc_spec (h : fm.Inv lim) (numPages : ℕ) :
    wp (fmAlloc numPages) (fun r fm' =>
      match r with
      | .error e => e < 0 ∧ fm' = fm
      | .ok a => 0 < numPages ∧ fm.view.extent a = none ∧ ∃ m, numPages ≤ m ∧
          Leads lim fm (Function.update fm.view.extent a (some m)) fm') (fun _ _ => False) fm := by
  refine wp_imp (fmAlloc_does h numPages) fun r fm' hr => ?_
  cases r with
  | error e => exact ⟨hr.1, hr.2.1⟩
  | ok a =>
      obtain ⟨hpos, hle, ha⟩ := hr
      obtain ⟨hnone, hl⟩ := ha.leads h
      exact ⟨hpos, hnone, _, (findBin_spec numPages _ hle).2, hl⟩

/-- There is a free frame of at least `n` pages. -/
def HasRoom (fm : FrameManager) (n : ℕ) : Prop :=
  ∃ p f, fm.frames p = some f ∧ f.status = .dealloc ∧ n ≤ f.numPages

/-- The bin that `fm_alloc` picks is the first one with frames of that size. -/
lemma findBin_le {numPages k : ℕ} (h : numPages ≤ 2 ^ k) : ∀ j, findBin numPages j ≤ k := by
  intro j
  induction j with
  | zero => exact Nat.zero_le k
  | succ j ih =>
      rw [findBin]
      split_ifs with hj
      · exact (Nat.pow_lt_pow_iff_right Nat.one_lt_two).mp (lt_of_lt_of_le hj.2 h)
      · exact ih

/-- A free frame is large enough just when its bin is not below the one `fm_alloc` picks. -/
lemma hasRoom_iff_bin (h : fm.Inv lim) {numPages : ℕ} (hle : numPages ≤ 2 ^ (fm.numBins - 1)) :
    fm.HasRoom numPages ↔ ∃ k, findBin numPages (fm.numBins - 1) ≤ k ∧ k < fm.numBins ∧
      fm.frameBins k ≠ [] := by
  constructor
  · rintro ⟨p, f, hp, hst, hsize⟩
    obtain ⟨n, hn⟩ := h.ok.owned hp
    rw [h.ok.pages hp] at hsize
    exact ⟨f.i, findBin_le hsize _, h.index_lt hp, List.ne_nil_of_mem (h.ok.mem_bin hn hp hst)⟩
  · rintro ⟨k, hk, -, hne⟩
    obtain ⟨n, hn⟩ := List.exists_mem_of_ne_nil _ hne
    obtain ⟨p, f, -, hp, hst, hi⟩ := h.ok.of_mem_bin hn
    refine ⟨p, f, hp, hst, ?_⟩
    rw [h.ok.pages hp, hi]
    exact (findBin_spec numPages _ hle).2.trans (Nat.pow_le_pow_right two_pos hk)

/-- **When `fm_alloc` finds a frame**: when there is a free one that is large enough. -/
theorem fmAlloc_ok_iff (h : fm.Inv lim) {numPages : ℕ} (hpos : 0 < numPages) :
    (∃ a fm', fmAlloc numPages fm = (.ok (.ok a), fm')) ↔ fm.HasRoom numPages := by
  have hwp := fmAlloc_does h numPages
  constructor
  · rintro ⟨a, fm', hrun⟩
    obtain ⟨-, hle, ha⟩ := wp_ok hwp hrun
    exact (hasRoom_iff_bin h hle).mpr (ha.exists_bin h)
  · intro hroom
    obtain ⟨r, fm', hrun, hpost⟩ := wp_returns hwp
    cases r with
    | ok a => exact ⟨a, fm', hrun⟩
    | error e =>
        -- a free frame that is large enough is in a bin that is not empty
        have hle : numPages ≤ 2 ^ (fm.numBins - 1) := by
          obtain ⟨p, f, hp, -, hsize⟩ := hroom
          have hi := h.index_lt hp
          have hpow : 2 ^ f.i ≤ 2 ^ (fm.numBins - 1) := Nat.pow_le_pow_right two_pos (by omega)
          rw [h.ok.pages hp] at hsize
          omega
        obtain ⟨k, h1, h2, hne⟩ := (hasRoom_iff_bin h hle).mp hroom
        exact absurd (hpost.2.2 hpos hle k h1 h2) hne

/-! ### Coalescing -/

/-- A frame and its buddy, as the two halves of their parent. -/
lemma buddy_facts {frames : Ptr → Option Frame} {top : ℕ} {b : Ptr}
    (h : Forest pageSize userMemStart lim top (blocks frames)) (hp : frames p = some f)
    (hb : f.buddy = some b) :
    ∃ q c g, f.parent = some q ∧ frames q = some c ∧ c.status = .parent ∧ frames b = some g ∧
      b ≠ p ∧ g.parent = some q ∧ g.buddy = some p ∧ g.i = f.i ∧ f.i + 1 = c.i ∧
      (Halves pageSize (blocks frames) q c.block p b f.block g.block ∨
        Halves pageSize (blocks frames) q c.block b p g.block f.block) := by
  obtain ⟨q, c', cy, hup, hq, hc, hy, hne, hyup, hym, hyo, hqo, hh⟩ :=
    h.siblings (blocks_of_some hp) hb
  obtain ⟨c, hqc, rfl⟩ := blocks_eq_some_iff.mp hq
  obtain ⟨g, hbg, rfl⟩ := blocks_eq_some_iff.mp hy
  exact ⟨q, c, g, hup, hqc, by simpa [Frame.block] using hc, hbg, hne, hyup, hym, hyo, hqo, hh⟩

/-- The forest after a leaf and its deallocated buddy gave way to their parent. -/
lemma forest_merge {frames frames' : Ptr → Option Frame} {top : ℕ} {b q : Ptr} {c : Frame}
    (h : Forest pageSize userMemStart lim top (blocks frames))
    (hq : frames q = some c) (hc : c.status = .parent) (hf : f.status ≠ .parent)
    (hg : g.status ≠ .parent)
    (hh : Halves pageSize (blocks frames) q c.block p b f.block g.block ∨
      Halves pageSize (blocks frames) q c.block b p g.block f.block)
    (hq' : frames' q = some { c with status := .alloc }) (hp' : frames' p = none)
    (hb' : frames' b = none) (hrest : ∀ z, z ≠ q → z ≠ p → z ≠ b → frames' z = frames z) :
    Forest pageSize userMemStart lim top (blocks frames') := by
  have hfl : f.block.st ≠ .split := by simpa [Frame.block] using hf
  have hgl : g.block.st ≠ .split := by simpa [Frame.block] using hg
  have hcs : c.block.st = .split := by simpa [Frame.block] using hc
  have hpn : blocks frames' p = none := by rw [blocks, hp', Option.map_none]
  have hbn : blocks frames' b = none := by rw [blocks, hb', Option.map_none]
  rcases hh with hh | hh
  · exact h.merge pageSize_pos .used (blocks_of_some hq) hh hfl hgl hcs (by simp)
      (blocks_of_some hq') hpn hbn fun z h1 h2 h3 => by rw [blocks, hrest z h1 h2 h3, blocks]
  · exact h.merge pageSize_pos .used (blocks_of_some hq) hh hgl hfl hcs (by simp)
      (blocks_of_some hq') hbn hpn fun z h1 h2 h3 => by rw [blocks, hrest z h1 h3 h2, blocks]

/-- An allocated frame is a hole to coalesce. -/
lemma Inv.hole (h : fm.Inv lim) (hp : fm.frames p = some f) (hst : f.status = .alloc) :
    fm.Hole lim p f :=
  { h with
    frame := hp
    status := by simp [hst]
    forest := by
      have heq : ({ f with status := .alloc } : Frame) = f := by rw [← hst]
      rw [heq, ← hp, Function.update_eq_self]
      exact h.forest }

namespace Hole

lemma index_lt (h : fm.Hole lim p f) : f.i < fm.numBins :=
  h.forest.ord_lt (p := p) (b := { f with status := .alloc }.block) (blocks_of_some (by simp))

/-- The buddy of a hole and their parent. -/
lemma buddy {b : Ptr} (h : fm.Hole lim p f) (hb : f.buddy = some b) :
    ∃ q c g, f.parent = some q ∧ fm.frames q = some c ∧ c.status = .parent ∧
      fm.frames b = some g ∧ b ≠ p ∧ q ≠ p ∧ g.parent = some q ∧ g.buddy = some p ∧ g.i = f.i ∧
      f.i + 1 = c.i ∧
      let B := blocks (Function.update fm.frames p (some { f with status := .alloc }))
      (Halves pageSize B q c.block p b { f with status := .alloc }.block g.block ∨
        Halves pageSize B q c.block b p g.block { f with status := .alloc }.block) := by
  obtain ⟨q, c, g, h1, h2, h3, h4, h5, h6, h7, h8, h9, hh⟩ :=
    buddy_facts (p := p) h.forest (Function.update_self ..) hb
  have hqp : q ≠ p := by
    rintro rfl
    rw [Function.update_self, Option.some.injEq] at h2
    simp [← h2] at h3
  rw [Function.update_of_ne hqp] at h2
  rw [Function.update_of_ne h5] at h4
  exact ⟨q, c, g, h1, h2, h3, h4, h5, hqp, h6, h7, h8, h9, hh⟩

/-- The test for a deallocated buddy of a hole that has none. -/
lemma deallocBuddy_none {Q : Option (Ptr × Frame) → FrameManager → Prop}
    {E : Fault → FrameManager → Prop} {fm' : FrameManager} (h : fm.Hole lim p f)
    (hno : ¬ ∃ b g, f.buddy = some b ∧ fm.frames b = some g ∧ g.status = .dealloc)
    (hfr : fm'.frames = fm.frames) (hQ : Q none fm') : wp (deallocBuddy f) Q E fm' := by
  rw [wp_deallocBuddy]
  cases hb : f.buddy with
  | none => exact hQ
  | some b =>
      obtain ⟨-, -, g, -, -, -, hg, -⟩ := h.buddy hb
      dsimp only
      rw [hfr, hg]
      dsimp only
      rwa [if_neg fun hgst => hno ⟨b, g, hb, hg, hgst⟩]

/-- A hole and its deallocated buddy give way to their parent, the next hole. -/
lemma merge {fm' : FrameManager} {m b : Ptr} {c : Frame} (h : fm.Hole lim p f)
    (hn : fm.nodes n = some p) (hb : f.buddy = some b) (hm : fm.nodes m = some b)
    (hg : fm.frames b = some g) (hst : g.status = .dealloc) (hup : f.parent = some q)
    (hc : fm.frames q = some c)
    (ht : fm.Turned ((fm.view.erase n p f).erase m b g) 0 fm') :
    fm'.Hole lim q c ∧ fm'.view.extent = (fm.view.erase n p f).extent := by
  obtain ⟨hview, hbins, hnext⟩ := ht
  rw [add_zero] at hnext
  obtain ⟨q', c', g', h1, h2, h3, h4, h5, hqp, -, -, -, -, hh⟩ := h.buddy hb
  obtain rfl := Option.some.inj (hg.symm.trans h4)
  obtain rfl := Option.some.inj (hup.symm.trans h1)
  obtain rfl := Option.some.inj (hc.symm.trans h2)
  have hqb : q ≠ b := by
    rintro rfl
    obtain rfl := Option.some.inj (hg.symm.trans h2)
    simp [hst] at h3
  have hmn : m ≠ n := by
    rintro rfl
    exact h5 (Option.some.inj (hm.symm.trans hn))
  -- first `f` leaves the structures, and then its buddy
  have hok := h.ok.erase hn h.frame
  have hm' : (fm.view.erase n p f).nodes m = some b := by
    rw [View.erase_nodes, Function.update_of_ne hmn]; exact hm
  have hg' : (fm.view.erase n p f).frames b = some g := by
    rw [View.erase_frames, Function.update_of_ne h5]; exact hg
  have hfr : fm'.frames = Function.update (Function.update fm.frames p none) b none := by
    have := congrArg View.frames hview
    rwa [View.erase_frames, View.erase_frames] at this
  have hnd : fm'.nodes = Function.update (Function.update fm.nodes n none) m none := by
    have := congrArg View.nodes hview
    rwa [View.erase_nodes, View.erase_nodes] at this
  refine ⟨⟨⟨hbins ▸ h.bins_pos, hbins ▸ h.bins_le, ?_, ?_, ?_⟩, h.lim_le, ?_, ?_, ?_⟩, ?_⟩
  · rw [hview]
    exact hok.erase hm' hg'
  · intro z hz
    rw [hfr]
    by_cases hzb : z = b
    · rw [hzb, Function.update_self]
    by_cases hzp : z = p
    · rw [Function.update_of_ne hzb, hzp, Function.update_self]
    · rw [Function.update_of_ne hzb, Function.update_of_ne hzp, h.fresh_frame (hnext ▸ hz)]
  · intro z hz
    rw [hnd]
    by_cases hzm : z = m
    · rw [hzm, Function.update_self]
    by_cases hzn : z = n
    · rw [Function.update_of_ne hzm, hzn, Function.update_self]
    · rw [Function.update_of_ne hzm, Function.update_of_ne hzn, h.fresh_node (hnext ▸ hz)]
  · rw [hfr, Function.update_of_ne hqb, Function.update_of_ne hqp, h2]
  · simp [h3]
  · rw [hbins]
    -- the parent is a leaf again, in place of its two halves
    refine forest_merge h.forest (by rw [Function.update_of_ne hqp, h2]) h3 (by simp)
      (by simp [hst]) hh (by simp) ?_ ?_ ?_
    · rw [Function.update_of_ne hqp.symm, hfr, Function.update_of_ne h5.symm, Function.update_self]
    · rw [Function.update_of_ne hqb.symm, hfr, Function.update_self]
    · intro z hzq hzp hzb
      rw [Function.update_of_ne hzq, hfr, Function.update_of_ne hzb, Function.update_of_ne hzp,
        Function.update_of_ne hzp]
  · rw [hview, View.extent_erase hok hm' hg' (by simp [hst])]

/-- The address of a hole is free among the deallocated frames. -/
lemma addr_free (h : fm.Hole lim p f) : fm.view.table .dealloc f.addr = none := by
  by_contra hk
  obtain ⟨m, hm⟩ := Option.ne_none_iff_exists'.mp hk
  obtain ⟨q, g, -, hq, hg, hkey⟩ := h.ok.of_table hm
  rw [Frame.key, if_neg (by simp [hg])] at hkey
  have hqp : q ≠ p := by
    rintro rfl
    exact h.status (Option.some.inj (h.frame.symm.trans hq) ▸ hg)
  -- in the patched forest the hole is a leaf at the same address
  have hfb : blocks (Function.update fm.frames p (some { f with status := .alloc })) p =
      some ({ f with status := .alloc } : Frame).block := blocks_of_some (by simp)
  have hgb : blocks (Function.update fm.frames p (some { f with status := .alloc })) q =
      some g.block := blocks_of_some (by rw [Function.update_of_ne hqp]; exact hq)
  have hlo := Forest.lo_lt_hi pageSize_pos ({ f with status := .alloc } : Frame).block
  have hlo' := Forest.lo_lt_hi pageSize_pos g.block
  exact hqp (h.forest.leaf_unique (x := g.addr) hgb hfb (by simp [Frame.block, hg])
    (by simp [Frame.block]) ⟨le_rfl, hlo'⟩ (by rw [hkey]; exact ⟨le_rfl, hlo⟩))

/-- A hole becomes a deallocated frame. -/
lemma filled {fm' : FrameManager} (h : fm.Hole lim p f) (hn : fm.nodes n = some p)
    (ht : fm.Turned (fm.view.restatus n p f .dealloc) 0 fm') :
    Leads lim fm (fm.view.erase n p f).extent fm' := by
  have hfree : fm.view.table .dealloc { f with status := .dealloc }.key = none := by
    simpa [Frame.key] using h.addr_free
  obtain ⟨hsound, hfr⟩ := h.toSound.restatus hn h.frame h.status hfree ht
  refine ⟨{ hsound with lim_le := h.lim_le, forest := ?_ }, ht.numBins, ?_⟩
  · have := forest_recolor (p := p) (f := { f with status := .alloc }) .dealloc h.forest
      (by simp) (by simp) (by simp)
    rw [Function.update_idem] at this
    rw [hfr, ht.numBins]
    exact this
  · rw [ht.view, View.restatus,
      View.extent_insert (h.ok.erase hn h.frame) (by simp) (by simp) (by simp)]

end Hole

/-- The buddy of the frame `f` can be coalesced with. -/
def FreeBuddy (fm : FrameManager) (f : Frame) : Prop :=
  ∃ b g, f.buddy = some b ∧ fm.frames b = some g ∧ g.status = .dealloc

/-- The frame `f` at `p` has been deallocated, alone or with the buddies it can coalesce with:
it and a deallocated buddy give way to their parent, until there is none. -/
inductive Joined : FrameManager → Ptr → Frame → FrameManager → Prop
  | fill {fm fm' : FrameManager} {n p : Ptr} {f : Frame} : fm.nodes n = some p →
      ¬ fm.FreeBuddy f → fm.Turned (fm.view.restatus n p f .dealloc) 0 fm' → Joined fm p f fm'
  | merge {fm fm₁ fm' : FrameManager} {n m p b q : Ptr} {f g c : Frame} : fm.nodes n = some p →
      fm.nodes m = some b → f.buddy = some b → fm.frames b = some g → g.status = .dealloc →
      f.parent = some q → fm.frames q = some c → c.status = .parent →
      fm.Turned ((fm.view.erase n p f).erase m b g) 0 fm₁ → Joined fm₁ q c fm' → Joined fm p f fm'

/-- The extents once the frame is deallocated are the ones without it. -/
lemma Joined.leads {fm' : FrameManager} (hj : Joined fm p f fm') (h : fm.Hole lim p f)
    (hn : fm.nodes n = some p) : Leads lim fm (fm.view.erase n p f).extent fm' := by
  induction hj generalizing n with
  | fill hn' _ ht =>
      obtain rfl := h.ok.inj (show _ from hn) hn'
      exact h.filled hn ht
  | @merge fm fm₁ fm' n' m p b q f g c hn' hm hb hg hst hup hc hcs ht _ ih =>
      obtain rfl := h.ok.inj (show _ from hn) hn'
      obtain ⟨hhole, hext⟩ := h.merge hn hb hm hg hst hup hc ht
      obtain ⟨k, hk⟩ := hhole.ok.owned hhole.frame
      have hl := ih hhole hk
      rw [View.extent_erase hhole.ok hk hhole.frame (by simp [hcs]), hext] at hl
      exact ⟨hl.inv, hl.numBins.trans ht.numBins, hl.extent⟩

/-- `request_join` fills a hole, alone or with the buddies it can coalesce with;
the fuel outlasts the indices above. -/
theorem requestJoin_does : ∀ (fuel : ℕ) {fm : FrameManager} {p : Ptr} {f : Frame},
    fm.Hole lim p f → f.status = .parent → fm.numBins ≤ fuel + f.i →
    wp (requestJoin fuel (some p)) (fun r fm' => r = 0 ∧ Joined fm p f fm')
      (fun _ _ => False) fm := by
  -- by induction on the fuel: the parent of a hole has a higher order
  intro fuel
  induction fuel with
  | zero =>
      intro fm p f h _ hfuel
      have hlt := h.index_lt
      omega
  | succ fuel ih =>
      intro fm p f h hst hfuel
      obtain ⟨n, hn⟩ := h.ok.owned h.frame
      change fm.nodes n = some p at hn
      have hlook := h.ok.lookup hn h.frame
      rw [hst, Frame.key, if_pos hst] at hlook
      have hget : htGet fm.parents (f.addr ||| f.i) = some n := hlook
      obtain ⟨hval, hpar⟩ := htGet_htRemove fm.parents (f.addr ||| f.i)
      rw [hget] at hval
      rw [requestJoin]
      -- there is a deallocated buddy, or the hole is filled as it is
      by_cases hjoin : fm.FreeBuddy f
      · obtain ⟨b, g, hb, hg, hgst⟩ := hjoin
        obtain ⟨q, c, g', h1, h2, h3, h4, h5, -, h6, -, h8, h9, -⟩ := h.buddy hb
        obtain rfl := Option.some.inj (hg.symm.trans h4)
        obtain ⟨m, hm⟩ := h.ok.owned (p := b) hg
        change fm.nodes m = some b at hm
        have hlook' := h.ok.lookup hm hg
        rw [hgst, Frame.key, if_neg (by simp [hgst])] at hlook'
        have hget' : htGet fm.deallocated g.addr = some m := hlook'
        obtain ⟨hval', hdea⟩ := htGet_htRemove fm.deallocated g.addr
        rw [hget'] at hval'
        have hbin : m ∈ fm.frameBins f.i := h8 ▸ h.ok.mem_bin hm hg hgst
        have hlt : f.i < fm.numBins := h.index_lt
        have hmn : n ≠ m := by
          rintro rfl
          exact h5 (Option.some.inj (hm.symm.trans hn))
        have hfp : Function.update fm.frames b none p = some f := by
          rw [Function.update_of_ne h5.symm, h.frame]
        have hnn : Function.update fm.nodes m none n = some p := by
          rw [Function.update_of_ne hmn, hn]
        simp only [wp_bind, wp_deref, wp_require, wp_deallocBuddy, wp_removeParents,
          wp_removeDeallocated, wp_orPanic, wp_llUnlinkNode, wp_freeFrame, wp_freeNode, h.frame,
          hst, hb, hg, hgst, hval, hval', hm, hlt, hbin, hfp, hnn, h1, h6, ↓reduceIte, ne_eq,
          reduceCtorEq, not_false_eq_true, and_self, true_implies, not_true_eq_false,
          IsEmpty.forall_iff, and_true]
        -- both halves have left the structures
        have hview : ∀ {fm' : FrameManager},
            fm'.nodes = Function.update (Function.update fm.nodes m none) n none →
            fm'.frames = Function.update (Function.update fm.frames b none) p none →
            htGet fm'.allocated = htGet fm.allocated →
            htGet fm'.deallocated = Function.update (htGet fm.deallocated) g.addr none →
            htGet fm'.parents = Function.update (htGet fm.parents) (f.addr ||| f.i) none →
            fm'.frameBins = Function.update fm.frameBins f.i ((fm.frameBins f.i).erase m) →
            fm'.view = (fm.view.erase n p f).erase m b g := by
          intro fm' e1 e2 e3 e4 e5 e6
          refine view_eq ?_ ?_ ?_ ?_ ?_ ?_
          · rw [e1, Function.update_comm hmn.symm]; rfl
          · rw [e2, Function.update_comm h5]; rfl
          · simp [e3, hst, hgst, view]
          · simp [e4, hst, hgst, view, Frame.key]
          · simp [e5, hst, hgst, view, Frame.key]
          · simp [e6, View.erase, hst, hgst, view, Frame.binOf, h8]
        -- the parent is the next hole
        have hnext : ∀ {fm' : FrameManager},
            fm.Turned ((fm.view.erase n p f).erase m b g) 0 fm' →
            wp (requestJoin fuel (some q)) (fun r fm'' => wp
              (if r < 0 then fault (.panic "Invalid parent pointer!") else pure 0 : FmM ℤ)
              (fun r fm' => r = 0 ∧ Joined fm p f fm') (fun _ _ => False) fm'')
              (fun _ _ => False) fm' := by
          intro fm' ht
          have hbins := ht.numBins
          refine wp_imp (ih (h.merge hn hb hm hg hgst h1 h2 ht).1 h3 (by omega)) fun r fm₂ hr => ?_
          obtain ⟨rfl, hrest⟩ := hr
          rw [wp_ite]
          exact ⟨fun h' => absurd h' (by simp),
            fun _ => ⟨rfl, .merge hn hm hb hg hgst h1 h2 h3 ht hrest⟩⟩
        exact hnext ⟨hview rfl rfl rfl hdea hpar rfl, rfl, rfl⟩
      -- the hole is filled by the frame itself, deallocated
      · have hfree := h.addr_free
        obtain ⟨hcode, hput⟩ := htGet_htPut (t := fm.deallocated) _ hfree n
        have hnot : ∀ j, n ∉ fm.frameBins j := fun j =>
          h.ok.not_mem_bin (fun g hg => by
            obtain rfl := Option.some.inj ((View.content_of hn h.frame).symm.trans hg)
            simp [hst]) j
        have hlt : f.i < fm.numBins := h.index_lt
        simp only [wp_bind, wp_deref, wp_require, h.frame, hst, true_implies, not_true_eq_false,
          IsEmpty.forall_iff, and_true]
        refine h.deallocBuddy_none hjoin rfl ?_
        simp only [wp_bind, wp_removeParents, wp_orPanic, hval, wp_putDeallocated, hcode,
          lt_self_iff_false, ↓reduceIte, wp_setStatus, h.frame, wp_llLinkNodeLast, hlt, hnot,
          wp_pure, not_false_eq_true, implies_true, true_implies, not_true_eq_false,
          IsEmpty.forall_iff, and_true, true_and]
        refine .fill hn hjoin ⟨view_eq ?_ ?_ ?_ ?_ ?_ ?_, rfl, rfl⟩
        · rw [View.restatus_nodes (v := fm.view) hn]; rfl
        · simp [View.restatus_frames, view]
        · simp [View.restatus, view, hst]
        · simp [View.restatus, view, hst, Frame.key, hput]
        · simp [View.restatus, view, hst, Frame.key, hpar]
        · simp [View.restatus, View.insert, View.erase, view, hst, Frame.binOf]

/-! ### Deallocating -/

/-- What `fm_dealloc` does to the structures: it fails without effect on an address where nothing
is allocated, and deallocates the frame there otherwise. -/
theorem fmDealloc_does (h : fm.Inv lim) (a : ℕ) :
    wp (fmDealloc a) (fun r fm' => (fm.view.extent a = none ∧ r = -2 ∧ fm' = fm) ∨
      (r = 0 ∧ ∃ p f, fm.frames p = some f ∧ f.status = .alloc ∧ f.addr = a ∧ Joined fm p f fm'))
      (fun _ _ => False) fm := by
  rw [fmDealloc, wp_bind, wp_removeAllocated]
  obtain ⟨hval, hall⟩ := htGet_htRemove fm.allocated a
  rw [hval]
  by_cases ha : fm.view.extent a = none
  -- nothing is allocated at `a`: the call fails
  · have hnone : htGet fm.allocated a = none := (View.extent_eq_none_iff h.ok a).mp ha
    have hsame : (htRemove fm.allocated a).2 = fm.allocated := by
      unfold htRemove
      split
      · rfl
      · next v hv => simp [hnone] at hv
    rw [hnone, hsame]
    exact .inl ⟨ha, rfl, rfl⟩
  · obtain ⟨k, hk⟩ := Option.ne_none_iff_exists'.mp ha
    obtain ⟨n, p, f, hget, hn, hp, hst, rfl, -⟩ := View.of_extent h.ok hk
    change htGet fm.allocated f.addr = some n at hget
    change fm.nodes n = some p at hn
    change fm.frames p = some f at hp
    have hole := h.hole hp hst
    have hlt := h.index_lt hp
    -- the assertion on the buddy holds
    have hok : ∀ {Q : Unit → FrameManager → Prop} {E : Fault → FrameManager → Prop}
        {fm' : FrameManager}, fm'.frames = fm.frames → Q () fm' → wp (buddyOk p f) Q E fm' := by
      intro Q E fm' hfr hQ
      rw [buddyOk]
      cases hb : f.buddy with
      | none => exact hQ
      | some b =>
          obtain ⟨q, c, g, h1, -, -, hg, -, -, h6, h7, h8, -⟩ := hole.buddy hb
          have hsize : g.numPages = f.numPages := by
            rw [h.ok.pages hg, h.ok.pages hp, h8]
          dsimp only
          rw [wp_bind, wp_deref, hfr, hg]
          dsimp only
          rw [wp_require]
          exact ⟨fun _ => hQ, fun hn => absurd ⟨h6.trans h1.symm, h8, hsize, h7⟩ hn⟩
    refine wp_imp (Q := fun r fm' => r = 0 ∧ Joined fm p f fm') ?_
      fun r fm' hpost => .inr ⟨hpost.1, p, f, hp, hst, rfl, hpost.2⟩
    rw [hget]
    dsimp only
    simp only [wp_bind, wp_llNodeGetData, wp_deref, wp_require, hn, hp, hst, true_implies,
      not_true_eq_false, IsEmpty.forall_iff, and_true]
    refine hok rfl ?_
    by_cases hjoin : fm.FreeBuddy f
    -- the buddy is free: both go, and their parent is the next hole
    · obtain ⟨b, g, hb, hg, hgst⟩ := hjoin
      obtain ⟨q, c, g', h1, h2, h3, h4, h5, -, -, -, h8, h9, -⟩ := hole.buddy hb
      obtain rfl := Option.some.inj (hg.symm.trans h4)
      obtain ⟨m, hm⟩ := h.ok.owned (p := b) hg
      change fm.nodes m = some b at hm
      have hlook' := h.ok.lookup hm hg
      rw [hgst, Frame.key, if_neg (by simp [hgst])] at hlook'
      have hget' : htGet fm.deallocated g.addr = some m := hlook'
      obtain ⟨hval', hdea⟩ := htGet_htRemove fm.deallocated g.addr
      rw [hget'] at hval'
      have hbin : m ∈ fm.frameBins g.i := h.ok.mem_bin hm hg hgst
      have hlt' : g.i < fm.numBins := h.index_lt hg
      have hmn : m ≠ n := by
        rintro rfl
        exact h5 (Option.some.inj (hm.symm.trans hn))
      have hfb : Function.update fm.frames p none b = some g := by
        rw [Function.update_of_ne h5, hg]
      have hnn : Function.update fm.nodes m none n = some p := by
        rw [Function.update_of_ne hmn.symm, hn]
      simp only [wp_deallocBuddy, hb, hg, hgst, ↓reduceIte, wp_bind, wp_removeDeallocated, hval',
        wp_orPanic, wp_llUnlinkNode, hlt', hbin, wp_freeFrame, hp, hfb, wp_freeNode, hm, hnn,
        wp_gets, h1, wp_pure, true_implies, not_true_eq_false, IsEmpty.forall_iff, and_true,
        true_and]
      have hview : ∀ {fm' : FrameManager},
          fm'.nodes = Function.update (Function.update fm.nodes m none) n none →
          fm'.frames = Function.update (Function.update fm.frames p none) b none →
          htGet fm'.allocated = Function.update (htGet fm.allocated) f.addr none →
          htGet fm'.deallocated = Function.update (htGet fm.deallocated) g.addr none →
          htGet fm'.parents = htGet fm.parents →
          fm'.frameBins = Function.update fm.frameBins g.i ((fm.frameBins g.i).erase m) →
          fm'.view = (fm.view.erase n p f).erase m b g := by
        intro fm' e1 e2 e3 e4 e5 e6
        refine view_eq ?_ ?_ ?_ ?_ ?_ ?_
        · rw [e1, Function.update_comm hmn]; rfl
        · rw [e2]; rfl
        · simp [e3, hst, hgst, view, Frame.key]
        · simp [e4, hst, hgst, view, Frame.key]
        · simp [e5, hst, hgst, view]
        · simp [e6, View.erase, hst, hgst, view, Frame.binOf]
      have hnext : ∀ {fm' : FrameManager},
          fm.Turned ((fm.view.erase n p f).erase m b g) 0 fm' →
          wp (requestJoin (fm'.numBins + 1) (some q)) (fun _ fm₂ => Joined fm p f fm₂)
            (fun _ _ => False) fm' := by
        intro fm' ht
        refine wp_imp (requestJoin_does _ (hole.merge hn hb hm hg hgst h1 h2 ht).1 h3 (by omega))
          fun r fm₂ hr => .merge hn hm hb hg hgst h1 h2 h3 ht hr.2
      exact hnext ⟨hview rfl rfl hall hdea rfl rfl, rfl, rfl⟩
    -- the frame goes to its bin
    · have hfree := h.addr_free hp (by simp [hst]) .dealloc (by simp) (by simp [hst])
      have hput := (htGet_htPut (t := fm.deallocated) _ hfree n).2
      have hnot : ∀ j, n ∉ fm.frameBins j := fun j =>
        h.ok.not_mem_bin (fun g hg => by
          obtain rfl := Option.some.inj ((View.content_of hn hp).symm.trans hg)
          simp [hst]) j
      refine hole.deallocBuddy_none hjoin rfl ?_
      simp only [wp_bind, wp_putDeallocated, wp_setStatus, hp, wp_llLinkNodeLast, hlt, hnot,
        wp_pure, not_false_eq_true, implies_true, true_implies, not_true_eq_false,
        IsEmpty.forall_iff, and_true, true_and]
      refine .fill hn hjoin ⟨view_eq ?_ ?_ ?_ ?_ ?_ ?_, rfl, rfl⟩
      · rw [View.restatus_nodes (v := fm.view) hn]; rfl
      · simp [View.restatus_frames, view]
      · simp [View.restatus, view, hst, Frame.key, hall]
      · simp [View.restatus, view, hst, Frame.key, hput]
      · simp [View.restatus, view, hst]
      · simp [View.restatus, View.insert, View.erase, view, hst, Frame.binOf]

/-- **What `fm_dealloc` does**: it fails without effect on an address where
nothing is allocated, and deallocates the frame there otherwise. -/
theorem fmDealloc_spec (h : fm.Inv lim) (a : ℕ) :
    wp (fmDealloc a) (fun r fm' =>
      Leads lim fm (Function.update fm.view.extent a none) fm' ∧
        (fm.view.extent a = none → r = -2) ∧ (fm.view.extent a ≠ none → r = 0))
      (fun _ _ => False) fm := by
  refine wp_imp (fmDealloc_does h a) fun r fm' hr => ?_
  rcases hr with ⟨hnone, rfl, rfl⟩ | ⟨rfl, p, f, hp, hst, rfl, hj⟩
  · have hsame := Function.update_eq_self a fm'.view.extent
    rw [hnone] at hsame
    rw [hsame]
    exact ⟨.refl h, fun _ => rfl, fun hne => absurd hnone hne⟩
  · obtain ⟨n, hn⟩ := h.ok.owned hp
    have hl := hj.leads (h.hole hp hst) hn
    rw [View.extent_erase_alloc h.ok hn hp hst] at hl
    have hsome := View.extent_of_alloc h.ok hn hp hst
    exact ⟨hl, fun hnone => by simp [hsome] at hnone, fun _ => rfl⟩

end

end FrameManager

end ShrekOS
