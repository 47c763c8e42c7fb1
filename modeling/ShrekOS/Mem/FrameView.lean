/-
What the frame manager's structures say, and how it may change.

* `View`: the list nodes, the frames, the three tables as partial maps, and the
  bins; `FrameManager.view` reads it off the frame manager;
* `View.Ok`: the structures agree: nodes and frames are paired, every frame is in
  the table of its status under its key, and the bins list the deallocated ones;
* `View.erase`, `View.insert`: a frame leaves or enters all the structures, and
  `View.Ok` is kept (`View.Ok.erase`, `View.Ok.insert`);
* `View.extent`: the sizes of the allocated frames by their addresses, which is
  what the clients of the frame manager see.
-/
import ShrekOS.Lib.Buddy
import ShrekOS.Lib.Registry
import ShrekOS.Mem.FrameManager

namespace ShrekOS

open Kit

/-- The key a frame has in the table of its status. -/
def Frame.key (f : Frame) : ℕ := if f.status = .parent then f.addr ||| f.i else f.addr

/-- The bin a frame is in. -/
def Frame.binOf (f : Frame) : Option ℕ := if f.status = .dealloc then some f.i else none

/-- What the status of a frame says of it as a block of a buddy system. -/
def FrameStatus.state : FrameStatus → Buddy.State
  | .alloc => .used
  | .dealloc => .free
  | .parent => .split

/-- A frame as a block of a buddy system. -/
def Frame.block (f : Frame) : Buddy.Block Ptr where
  lo := f.addr
  ord := f.i
  st := f.status.state
  mate := f.buddy
  up := f.parent

/-- The blocks of a set of frames. -/
def blocks (frames : Ptr → Option Frame) (p : Ptr) : Option (Buddy.Block Ptr) :=
  (frames p).map Frame.block

@[simp] lemma state_eq_split_iff (st : FrameStatus) : st.state = .split ↔ st = .parent := by
  cases st <;> simp [FrameStatus.state]

@[simp] lemma state_eq_used_iff (st : FrameStatus) : st.state = .used ↔ st = .alloc := by
  cases st <;> simp [FrameStatus.state]

@[simp] lemma state_eq_free_iff (st : FrameStatus) : st.state = .free ↔ st = .dealloc := by
  cases st <;> simp [FrameStatus.state]

lemma blocks_of_some {frames : Ptr → Option Frame} {p : Ptr} {f : Frame}
    (h : frames p = some f) : blocks frames p = some f.block := by
  rw [blocks, h, Option.map_some]

lemma blocks_eq_some_iff {frames : Ptr → Option Frame} {p : Ptr} {b : Buddy.Block Ptr} :
    blocks frames p = some b ↔ ∃ f, frames p = some f ∧ f.block = b := by
  rw [blocks, Option.map_eq_some_iff]

/-- The frame manager's structures. -/
@[ext]
structure View where
  nodes : Ptr → Option Ptr
  frames : Ptr → Option Frame
  table : FrameStatus → ℕ → Option Ptr
  bins : ℕ → List Ptr

namespace View

/-- The frame a node points to. -/
def content (v : View) (n : Ptr) : Option Frame := (v.nodes n).bind v.frames

lemma content_of {v : View} {n p : Ptr} {f : Frame} (hn : v.nodes n = some p)
    (hp : v.frames p = some f) : v.content n = some f := by
  rw [content, hn, Option.bind_some, hp]

lemma content_eq_some_iff {v : View} {n : Ptr} {f : Frame} :
    v.content n = some f ↔ ∃ p, v.nodes n = some p ∧ v.frames p = some f := by
  rw [content, Option.bind_eq_some_iff]

/-- The structures agree with each other. -/
structure Ok (v : View) : Prop where
  inj : ∀ {n m p}, v.nodes n = some p → v.nodes m = some p → n = m
  live : ∀ {n p}, v.nodes n = some p → ∃ f, v.frames p = some f
  owned : ∀ {p f}, v.frames p = some f → ∃ n, v.nodes n = some p
  pages : ∀ {p f}, v.frames p = some f → f.numPages = 2 ^ f.i
  registered : Registered Frame.status Frame.key v.table v.content
  listed : Listed Frame.binOf v.bins v.content

/-- The frame `f` at `p`, with node `n`, leaves all the structures. -/
def erase (v : View) (n p : Ptr) (f : Frame) : View where
  nodes := Function.update v.nodes n none
  frames := Function.update v.frames p none
  table := Function.update v.table f.status
    (Function.update (v.table f.status) f.key none)
  bins := match f.binOf with
    | some i => Function.update v.bins i ((v.bins i).erase n)
    | none => v.bins

/-- The frame `f` at `p`, with node `n`, enters all the structures. -/
def insert (v : View) (n p : Ptr) (f : Frame) : View where
  nodes := Function.update v.nodes n (some p)
  frames := Function.update v.frames p (some f)
  table := Function.update v.table f.status
    (Function.update (v.table f.status) f.key (some n))
  bins := match f.binOf with
    | some i => Function.update v.bins i (v.bins i ++ [n])
    | none => v.bins

@[simp] lemma erase_nodes (v : View) (n p : Ptr) (f : Frame) :
    (v.erase n p f).nodes = Function.update v.nodes n none := rfl

@[simp] lemma erase_frames (v : View) (n p : Ptr) (f : Frame) :
    (v.erase n p f).frames = Function.update v.frames p none := rfl

@[simp] lemma erase_table (v : View) (n p : Ptr) (f : Frame) :
    (v.erase n p f).table = Function.update v.table f.status
      (Function.update (v.table f.status) f.key none) := rfl

@[simp] lemma insert_nodes (v : View) (n p : Ptr) (f : Frame) :
    (v.insert n p f).nodes = Function.update v.nodes n (some p) := rfl

@[simp] lemma insert_frames (v : View) (n p : Ptr) (f : Frame) :
    (v.insert n p f).frames = Function.update v.frames p (some f) := rfl

@[simp] lemma insert_table (v : View) (n p : Ptr) (f : Frame) :
    (v.insert n p f).table = Function.update v.table f.status
      (Function.update (v.table f.status) f.key (some n)) := rfl

/-- A change of status: the frame leaves the structures and enters them anew. -/
def restatus (v : View) (n p : Ptr) (f : Frame) (st : FrameStatus) : View :=
  (v.erase n p f).insert n p { f with status := st }

lemma restatus_nodes {v : View} {n p : Ptr} (hn : v.nodes n = some p) (f : Frame)
    (st : FrameStatus) : (v.restatus n p f st).nodes = v.nodes := by
  simp [restatus, ← hn]

lemma restatus_frames (v : View) (n p : Ptr) (f : Frame) (st : FrameStatus) :
    (v.restatus n p f st).frames = Function.update v.frames p (some { f with status := st }) := by
  simp [restatus]

/-- The table that a change of status leaves. -/
lemma restatus_table_old (v : View) (n p : Ptr) {f : Frame} (st : FrameStatus)
    (h : f.status ≠ st) :
    (v.restatus n p f st).table f.status = Function.update (v.table f.status) f.key none := by
  simp [restatus, Function.update_of_ne h]

namespace Ok

variable {v : View} {n p : Ptr} {f : Frame}

lemma content_erase (h : v.Ok) (hn : v.nodes n = some p) :
    (v.erase n p f).content = Function.update v.content n none := by
  funext m
  by_cases hm : m = n
  · subst hm
    simp [content]
  · rw [Function.update_of_ne hm, content, content, erase_nodes, erase_frames,
      Function.update_of_ne hm]
    cases hq : v.nodes m with
    | none => rfl
    | some q =>
        have hqp : q ≠ p := fun hqp => hm (h.inj hq (hqp ▸ hn))
        simp [Function.update_of_ne hqp]

lemma content_insert (h : v.Ok) (hp : v.frames p = none) :
    (v.insert n p f).content = Function.update v.content n (some f) := by
  funext m
  by_cases hm : m = n
  · subst hm
    simp [content]
  · rw [Function.update_of_ne hm, content, content, insert_nodes, insert_frames,
      Function.update_of_ne hm]
    cases hq : v.nodes m with
    | none => rfl
    | some q =>
        have hqp : q ≠ p := by
          rintro rfl
          obtain ⟨g, hg⟩ := h.live hq
          simp [hp] at hg
        simp [Function.update_of_ne hqp]

/-- Taking a frame out of all the structures keeps their agreement. -/
lemma erase (h : v.Ok) (hn : v.nodes n = some p) (hp : v.frames p = some f) :
    (v.erase n p f).Ok where
  inj {m k q} hm hk := by
    have hm' : m ≠ n := by rintro rfl; simp at hm
    have hk' : k ≠ n := by rintro rfl; simp at hk
    rw [erase_nodes, Function.update_of_ne hm'] at hm
    rw [erase_nodes, Function.update_of_ne hk'] at hk
    exact h.inj hm hk
  live {m q} hm := by
    have hm' : m ≠ n := by rintro rfl; simp at hm
    rw [erase_nodes, Function.update_of_ne hm'] at hm
    have hq : q ≠ p := fun hq => hm' (h.inj hm (hq ▸ hn))
    rw [erase_frames, Function.update_of_ne hq]
    exact h.live hm
  owned {q g} hq := by
    have hqp : q ≠ p := by rintro rfl; simp at hq
    rw [erase_frames, Function.update_of_ne hqp] at hq
    obtain ⟨m, hm⟩ := h.owned hq
    have hm' : m ≠ n := by
      rintro rfl
      exact hqp (Option.some.inj (hm.symm.trans hn))
    exact ⟨m, by rwa [erase_nodes, Function.update_of_ne hm']⟩
  pages {q g} hq := by
    have hqp : q ≠ p := by rintro rfl; simp at hq
    rw [erase_frames, Function.update_of_ne hqp] at hq
    exact h.pages hq
  registered := by
    rw [h.content_erase hn]
    exact h.registered.erase (content_of hn hp)
  listed := by
    rw [h.content_erase hn, View.erase]
    cases hb : f.binOf with
    | none => exact h.listed.erase_of_none (content_of hn hp) hb
    | some i => exact h.listed.erase (content_of hn hp) hb

/-- Putting a new frame into all the structures keeps their agreement. -/
lemma insert (h : v.Ok) (hn : v.nodes n = none) (hp : v.frames p = none)
    (hk : v.table f.status f.key = none) (hf : f.numPages = 2 ^ f.i) : (v.insert n p f).Ok where
  inj {m k q} hm hk := by
    rw [insert_nodes] at hm hk
    have hnot : ∀ m, v.nodes m ≠ some p := by
      intro m hm
      obtain ⟨g, hg⟩ := h.live hm
      simp [hp] at hg
    by_cases hm' : m = n
    · subst hm'
      rw [Function.update_self] at hm
      obtain rfl := Option.some.inj hm
      by_contra hne
      rw [Function.update_of_ne (Ne.symm hne)] at hk
      exact hnot _ hk
    · rw [Function.update_of_ne hm'] at hm
      by_cases hk' : k = n
      · subst hk'
        rw [Function.update_self] at hk
        obtain rfl := Option.some.inj hk
        exact absurd hm (hnot _)
      · rw [Function.update_of_ne hk'] at hk
        exact h.inj hm hk
  live {m q} hm := by
    rw [insert_nodes] at hm
    rw [insert_frames]
    by_cases hq : q = p
    · exact ⟨f, by simp [hq]⟩
    · by_cases hm' : m = n
      · subst hm'
        rw [Function.update_self] at hm
        exact absurd (Option.some.inj hm).symm hq
      · rw [Function.update_of_ne hm'] at hm
        simpa [Function.update_of_ne hq] using h.live hm
  owned {q g} hq := by
    rw [insert_frames] at hq
    rw [insert_nodes]
    by_cases hqp : q = p
    · exact ⟨n, by simp [hqp]⟩
    · rw [Function.update_of_ne hqp] at hq
      obtain ⟨m, hm⟩ := h.owned hq
      have hm' : m ≠ n := by rintro rfl; simp [hn] at hm
      exact ⟨m, by rwa [Function.update_of_ne hm']⟩
  pages {q g} hq := by
    rw [insert_frames] at hq
    by_cases hqp : q = p
    · subst hqp
      rw [Function.update_self] at hq
      exact Option.some.inj hq ▸ hf
    · rw [Function.update_of_ne hqp] at hq
      exact h.pages hq
  registered := by
    rw [h.content_insert hp]
    exact h.registered.insert (by rw [content, hn, Option.bind_none]) hk
  listed := by
    have hc : v.content n = none := by rw [content, hn, Option.bind_none]
    rw [h.content_insert hp, View.insert]
    cases hb : f.binOf with
    | none => exact h.listed.insert_of_none hc hb
    | some i => exact h.listed.insert hc hb

/-- Changing a status keeps the agreement when the new key is free. -/
lemma restatus (st : FrameStatus) (h : v.Ok) (hn : v.nodes n = some p)
    (hp : v.frames p = some f) (hst : f.status ≠ st)
    (hk : v.table st { f with status := st }.key = none) : (v.restatus n p f st).Ok := by
  refine (h.erase hn hp).insert (by simp) (by simp) ?_ (h.pages hp :)
  simpa [Function.update_of_ne (Ne.symm hst)] using hk

/-! ### Looking frames up -/

lemma lookup (h : v.Ok) (hn : v.nodes n = some p) (hp : v.frames p = some f) :
    v.table f.status f.key = some n :=
  h.registered.lookup (content_of hn hp)

/-- What a table entry leads to. -/
lemma of_table (h : v.Ok) {st : FrameStatus} {k : ℕ} (hk : v.table st k = some n) :
    ∃ p f, v.nodes n = some p ∧ v.frames p = some f ∧ f.status = st ∧ f.key = k := by
  obtain ⟨f, hf, hst, hkey⟩ := (h.registered st k n).mp hk
  obtain ⟨p, hn, hp⟩ := content_eq_some_iff.mp hf
  exact ⟨p, f, hn, hp, hst, hkey⟩

/-- What a node in a bin leads to. -/
lemma of_mem_bin (h : v.Ok) {i : ℕ} (hi : n ∈ v.bins i) :
    ∃ p f, v.nodes n = some p ∧ v.frames p = some f ∧ f.status = .dealloc ∧ f.i = i := by
  obtain ⟨f, hf, hb⟩ := (h.listed.mem_iff i n).mp hi
  obtain ⟨p, hn, hp⟩ := content_eq_some_iff.mp hf
  rw [Frame.binOf] at hb
  split_ifs at hb with hst
  exact ⟨p, f, hn, hp, hst, Option.some.inj hb⟩

/-- A deallocated frame is in its bin. -/
lemma mem_bin (h : v.Ok) (hn : v.nodes n = some p) (hp : v.frames p = some f)
    (hst : f.status = .dealloc) : n ∈ v.bins f.i :=
  (h.listed.mem_iff _ _).mpr ⟨f, content_of hn hp, by simp [Frame.binOf, hst]⟩

/-- A node whose frame is not deallocated, or that has none, is in no bin. -/
lemma not_mem_bin (h : v.Ok) (hc : ∀ f, v.content n = some f → f.status ≠ .dealloc) (i : ℕ) :
    n ∉ v.bins i := by
  intro hi
  obtain ⟨p, f, hn, hp, hst, -⟩ := h.of_mem_bin hi
  exact hc f (content_of hn hp) hst

end Ok

/-! ### The allocated frames by their addresses -/

/-- The number of pages of the allocated frame at an address. -/
def extent (v : View) (a : ℕ) : Option ℕ :=
  (v.table .alloc a).bind fun n => (v.content n).map Frame.numPages

variable {v : View} {n p : Ptr} {f : Frame}

lemma extent_of_alloc (h : v.Ok) (hn : v.nodes n = some p) (hp : v.frames p = some f)
    (hst : f.status = .alloc) : v.extent f.addr = some f.numPages := by
  have := h.lookup hn hp
  rw [hst, Frame.key, if_neg (by simp [hst])] at this
  rw [extent, this, Option.bind_some, content_of hn hp, Option.map_some]

/-- What an allocated address leads to. -/
lemma of_extent (h : v.Ok) {a m : ℕ} (ha : v.extent a = some m) :
    ∃ n p f, v.table .alloc a = some n ∧ v.nodes n = some p ∧ v.frames p = some f ∧
      f.status = .alloc ∧ f.addr = a ∧ f.numPages = m := by
  rw [extent, Option.bind_eq_some_iff] at ha
  obtain ⟨n, hn, hm⟩ := ha
  obtain ⟨p, f, hnp, hp, hst, hk⟩ := h.of_table hn
  rw [content_of hnp hp, Option.map_some, Option.some.injEq] at hm
  rw [Frame.key, if_neg (by simp [hst])] at hk
  exact ⟨n, p, f, hn, hnp, hp, hst, hk, hm⟩

lemma extent_eq_none_iff (h : v.Ok) (a : ℕ) : v.extent a = none ↔ v.table .alloc a = none := by
  constructor
  · intro ha
    cases ht : v.table .alloc a with
    | none => rfl
    | some n =>
        obtain ⟨p, f, hn, hp, hst, hk⟩ := h.of_table ht
        rw [Frame.key, if_neg (by simp [hst])] at hk
        simp [← hk, extent_of_alloc h hn hp hst] at ha
  · intro ht
    rw [extent, ht, Option.bind_none]

/-- A frame that is not allocated leaves the structures. -/
lemma extent_erase (h : v.Ok) (hn : v.nodes n = some p) (hp : v.frames p = some f)
    (hst : f.status ≠ .alloc) : (v.erase n p f).extent = v.extent := by
  funext a
  rw [extent, extent, erase_table, Function.update_of_ne (Ne.symm hst), h.content_erase hn]
  cases ht : v.table .alloc a with
  | none => rfl
  | some m =>
      obtain ⟨q, g, hm, hq, hg, -⟩ := h.of_table ht
      have hmn : m ≠ n := by
        rintro rfl
        obtain rfl := Option.some.inj (hm.symm.trans hn)
        exact hst (Option.some.inj (hp.symm.trans hq) ▸ hg)
      rw [Option.bind_some, Option.bind_some, Function.update_of_ne hmn]

/-- An allocated frame leaves the structures. -/
lemma extent_erase_alloc (h : v.Ok) (hn : v.nodes n = some p) (hp : v.frames p = some f)
    (hst : f.status = .alloc) : (v.erase n p f).extent = Function.update v.extent f.addr none := by
  have hkey : f.key = f.addr := by rw [Frame.key, if_neg (by simp [hst])]
  funext a
  rw [extent, erase_table, hst, Function.update_self, h.content_erase hn, hkey]
  by_cases ha : a = f.addr
  · rw [ha, Function.update_self, Function.update_self, Option.bind_none]
  · rw [Function.update_of_ne ha, Function.update_of_ne ha, extent]
    cases ht : v.table .alloc a with
    | none => rfl
    | some m =>
        obtain ⟨q, g, hm, hq, hg, hk⟩ := h.of_table ht
        have hmn : m ≠ n := by
          rintro rfl
          obtain rfl := Option.some.inj (hm.symm.trans hn)
          obtain rfl := Option.some.inj (hp.symm.trans hq)
          exact ha (hk.symm.trans hkey)
        rw [Option.bind_some, Option.bind_some, Function.update_of_ne hmn]

/-- A table entry of the old structures does not lead to a new frame. -/
lemma ne_of_table (h : v.Ok) (hn : v.nodes n = none) {st : FrameStatus} {k : ℕ} {m : Ptr}
    (hk : v.table st k = some m) : m ≠ n := by
  obtain ⟨q, g, hm, -⟩ := h.of_table hk
  rintro rfl
  simp [hn] at hm

/-- A frame that is not allocated enters the structures. -/
lemma extent_insert (h : v.Ok) (hn : v.nodes n = none) (hp : v.frames p = none)
    (hst : f.status ≠ .alloc) : (v.insert n p f).extent = v.extent := by
  funext a
  rw [extent, extent, insert_table, Function.update_of_ne (Ne.symm hst), h.content_insert hp]
  cases ht : v.table .alloc a with
  | none => rfl
  | some m =>
      rw [Option.bind_some, Option.bind_some, Function.update_of_ne (ne_of_table h hn ht)]

/-- An allocated frame enters the structures. -/
lemma extent_insert_alloc (h : v.Ok) (hn : v.nodes n = none) (hp : v.frames p = none)
    (hst : f.status = .alloc) :
    (v.insert n p f).extent = Function.update v.extent f.addr (some f.numPages) := by
  have hkey : f.key = f.addr := by rw [Frame.key, if_neg (by simp [hst])]
  funext a
  rw [extent, insert_table, hst, Function.update_self, h.content_insert hp, hkey]
  by_cases ha : a = f.addr
  · rw [ha, Function.update_self, Function.update_self, Option.bind_some, Function.update_self,
      Option.map_some]
  · rw [Function.update_of_ne ha, Function.update_of_ne ha, extent]
    cases ht : v.table .alloc a with
    | none => rfl
    | some m =>
        rw [Option.bind_some, Option.bind_some, Function.update_of_ne (ne_of_table h hn ht)]

end View

/-- The structures of the frame manager. -/
def FrameManager.view (fm : FrameManager) : View where
  nodes := fm.nodes
  frames := fm.frames
  table
    | .alloc => htGet fm.allocated
    | .dealloc => htGet fm.deallocated
    | .parent => htGet fm.parents
  bins := fm.frameBins

end ShrekOS
