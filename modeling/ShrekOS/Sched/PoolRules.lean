/-
Weakest preconditions of the scheduler's primitive commands.

* `wlp_readTcb`, `wlp_writeTcb`, `wlp_tcbPoolFindNode`, …: a thread control block that is
  not there ends the run; `wp_readTcb`, `wp_writeTcb`, …: one that is there is no fault;
* `Sched.Lists`: the pools are well formed lists of given nodes that share none;
  `wp_unlink`, `wp_linkLast`, `wp_linkSorted`, `wp_rotate`: **a list operation on one pool
  keeps the others**.
-/
import ShrekOS.Data.LlRules
import ShrekOS.Sched.Scheduler

namespace ShrekOS

open Kit Kit.Cmd

variable {s : Sched}

/-! ### Thread control blocks and the table -/

@[simp] lemma wlp_readTcb {Q : Tcb → Sched → Prop} (tcb : Ptr) :
    wlp (readTcb tcb) Q s ↔ ∀ t, s.tcbs tcb = some t → Q t s := by
  rw [wlp, readTcb, wp_bind, wp_gets]
  cases s.tcbs tcb <;> simp

@[simp] lemma wlp_writeTcb {Q : Unit → Sched → Prop} (tcb : Ptr) (f : Tcb → Tcb) :
    wlp (writeTcb tcb f) Q s ↔ ∀ t, s.tcbs tcb = some t →
      Q () { s with tcbs := Function.update s.tcbs tcb (some (f t)) } := by
  rw [wlp, writeTcb, wp_bind]
  exact wlp_readTcb tcb

@[simp] lemma wlp_setStatus {Q : Unit → Sched → Prop} (tcb : Ptr) (st : Status) :
    wlp (setStatus tcb st) Q s ↔ ∀ t, s.tcbs tcb = some t →
      Q () { s with tcbs := Function.update s.tcbs tcb (some { t with status := st }) } :=
  wlp_writeTcb ..

@[simp] lemma wlp_currentTcb {Q : Ptr → Sched → Prop} :
    wlp currentTcb Q s ↔ ∀ cur, s.curTcb = some cur → Q cur s := by
  rw [wlp, currentTcb, wp_bind, wp_gets]
  cases s.curTcb <;> simp

/-- The thread of the table under a tid: its node, its tcb, and what the tcb holds. -/
structure Sched.Row (s : Sched) (tid : ℤ) (n tcb : Ptr) (t : Tcb) : Prop where
  node : htGet s.threads tid = some n
  elem : s.nodes.e n = some tcb
  tcb : s.tcbs tcb = some t

@[simp] lemma wlp_tcbPoolFindNode {Q : Option (Ptr × Ptr) → Sched → Prop} (tid : ℤ) :
    wlp (tcbPoolFindNode tid) Q s ↔ (htGet s.threads tid = none → Q none s) ∧
      ∀ n tcb, htGet s.threads tid = some n → s.nodes.e n = some tcb → Q (some (n, tcb)) s := by
  rw [wlp, tcbPoolFindNode, wp_bind, wp_gets]
  cases htGet s.threads tid with
  | none => simp
  | some n =>
      simp only [wp_bind, wp_gets, reduceCtorEq, false_implies, true_and, Option.some.injEq]
      constructor
      · rintro h n' tcb rfl htcb
        simpa [htcb] using h
      · intro h
        cases htcb : s.nodes.e n with
        | none => trivial
        | some tcb => exact h n tcb rfl htcb

section
variable {E : Fault → Sched → Prop} {t : Tcb} {tcb n : Ptr} {tid : ℤ}

lemma wp_readTcb {Q : Tcb → Sched → Prop} (ht : s.tcbs tcb = some t) :
    wp (readTcb tcb) Q E s ↔ Q t s := by
  rw [readTcb, wp_bind, wp_gets, ht]
  exact wp_pure t

lemma wp_writeTcb {Q : Unit → Sched → Prop} (ht : s.tcbs tcb = some t) (f : Tcb → Tcb) :
    wp (writeTcb tcb f) Q E s ↔
      Q () { s with tcbs := Function.update s.tcbs tcb (some (f t)) } := by
  rw [writeTcb, wp_bind]
  exact wp_readTcb ht

lemma wp_setStatus {Q : Unit → Sched → Prop} (ht : s.tcbs tcb = some t) (st : Status) :
    wp (setStatus tcb st) Q E s ↔
      Q () { s with tcbs := Function.update s.tcbs tcb (some { t with status := st }) } :=
  wp_writeTcb ht _

lemma wp_currentTcb {Q : Ptr → Sched → Prop} (hcur : s.curTcb = some tcb) :
    wp currentTcb Q E s ↔ Q tcb s := by
  rw [currentTcb, wp_bind, wp_gets, hcur]
  exact wp_pure tcb

lemma wp_tcbPoolFindNode {Q : Option (Ptr × Ptr) → Sched → Prop}
    (hn : htGet s.threads tid = some n) (he : s.nodes.e n = some tcb) :
    wp (tcbPoolFindNode tid) Q E s ↔ Q (some (n, tcb)) s := by
  rw [tcbPoolFindNode, wp_bind, wp_gets, hn, wp_bind, wp_gets, he]
  exact wp_pure (some (n, tcb))

lemma wp_tcbPoolFindNode_none {Q : Option (Ptr × Ptr) → Sched → Prop}
    (hn : htGet s.threads tid = none) : wp (tcbPoolFindNode tid) Q E s ↔ Q none s := by
  rw [tcbPoolFindNode, wp_bind, wp_gets, hn]
  exact wp_pure none

end

/-! ### The pools -/

/-- Other nodes and pools. -/
def Sched.withLists (s : Sched) (nodes : Nodes) (pools : Pool → Ll) : Sched :=
  { s with nodes := nodes, pools := pools }

@[simp] lemma wp_removeThread {Q : Option Ptr → Sched → Prop} {E : Fault → Sched → Prop}
    (tid : ℤ) :
    wp (removeThread tid) Q E s ↔
      Q (htRemove s.threads tid).1 { s with threads := (htRemove s.threads tid).2 } := Iff.rfl

lemma wp_onPool {α : Type} {Q : α → Sched → Prop} {E : Fault → Sched → Prop} (k : Pool)
    (c : LlM α) :
    wp (onPool k c) Q E s ↔
      wp c (fun a t => Q a (s.withLists t.nodes (Function.update s.pools k t.ll)))
        (fun e t => E e (s.withLists t.nodes (Function.update s.pools k t.ll)))
        ⟨s.nodes, s.pools k⟩ := by
  unfold wp onPool
  rcases c ⟨s.nodes, s.pools k⟩ with ⟨_ | _, _⟩ <;> rfl

/-- The pools are well formed lists of the given nodes, and no node is on two of them. -/
structure Sched.Lists (s : Sched) (L : Pool → List Ptr) : Prop where
  isLl : ∀ k, IsLl s.nodes (s.pools k) (L k)
  apart : ∀ n j k, n ∈ L j → n ∈ L k → j = k

variable {L : Pool → List Ptr} {k : Pool} {n : Ptr} {l l₁ l₂ : List Ptr}

/-- One pool is another list, and the nodes written to are on no other pool. -/
lemma Sched.Lists.replace (h : s.Lists L) {t : LlState} {m : List Ptr}
    (hoff : t.nodes.SameOff s.nodes m) (hm : ∀ a ∈ m, ∀ j, a ∈ L j → j = k)
    (hl : IsLl t.nodes t.ll l) (hlm : ∀ a ∈ l, ∀ j, a ∈ L j → j = k) :
    (s.withLists t.nodes (Function.update s.pools k t.ll)).Lists (Function.update L k l) := by
  refine ⟨fun j => ?_, fun a i j hi hj => ?_⟩
  · by_cases hj : j = k
    · subst hj
      simpa [withLists] using hl
    · change IsLl t.nodes (Function.update s.pools k t.ll j) (Function.update L k l j)
      rw [Function.update_of_ne hj, Function.update_of_ne hj]
      exact (h.isLl j).frame hoff fun a ha hc => hj (hm a hc j ha)
  · by_cases hik : i = k <;> by_cases hjk : j = k
    · exact hik.trans hjk.symm
    · rw [hik, Function.update_self] at hi
      rw [Function.update_of_ne hjk] at hj
      exact absurd (hlm a hi j hj) hjk
    · rw [hjk, Function.update_self] at hj
      rw [Function.update_of_ne hik] at hi
      exact absurd (hlm a hj i hi) hik
    · rw [Function.update_of_ne hik] at hi
      rw [Function.update_of_ne hjk] at hj
      exact h.apart a i j hi hj

variable {E : Fault → Sched → Prop} {Q : ℤ → Sched → Prop}

/-- **A node is taken off its pool.** -/
theorem wp_unlink (h : s.Lists L) (hL : L k = l₁ ++ n :: l₂)
    (hq : ∀ nodes pools, nodes.e = s.nodes.e → Detached nodes n →
      (s.withLists nodes pools).Lists (Function.update L k (l₁ ++ l₂)) →
      Q 0 (s.withLists nodes pools)) :
    wp (onPool k (llUnlinkNode n)) Q E s := by
  have hk := h.isLl k
  rw [hL] at hk
  have hhome : ∀ a ∈ l₁ ++ n :: l₂, ∀ j, a ∈ L j → j = k := fun a ha j hj =>
    h.apart a j k hj (hL ▸ ha)
  rw [wp_onPool]
  refine wp_imp (llUnlinkNode_spec (s := ⟨s.nodes, s.pools k⟩) hk) ?_
  rintro r t ⟨rfl, hoff, hl, hd⟩
  refine hq _ _ hoff.1 hd (h.replace hoff hhome hl fun a ha => hhome a ?_)
  rcases List.mem_append.mp ha with ha | ha
  · exact List.mem_append_left _ ha
  · exact List.mem_append_right _ (.tail n ha)

/-- **A node that is on no pool is linked at the end of one.** -/
theorem wp_linkLast (h : s.Lists L) (hn : ∀ j, n ∉ L j) (hd : Detached s.nodes n)
    (hq : ∀ nodes pools, nodes.e = s.nodes.e →
      (s.withLists nodes pools).Lists (Function.update L k (L k ++ [n])) →
      Q 0 (s.withLists nodes pools)) :
    wp (onPool k (llLinkNodeLast n)) Q E s := by
  have hhome : ∀ a ∈ n :: L k, ∀ j, a ∈ L j → j = k := by
    intro a ha j hj
    rcases List.mem_cons.mp ha with rfl | ha
    · exact absurd hj (hn j)
    · exact h.apart a j k hj ha
  rw [wp_onPool]
  refine wp_imp (llLinkNodeLast_spec (s := ⟨s.nodes, s.pools k⟩) (h.isLl k) (hn k) hd) ?_
  rintro r t ⟨rfl, hoff, hl⟩
  refine hq _ _ hoff.1 (h.replace hoff hhome hl fun a ha => hhome a ?_)
  rcases List.mem_append.mp ha with ha | ha
  · exact .tail n ha
  · exact List.mem_singleton.mp ha ▸ .head _

/-- **A node that is on no pool is inserted in order.** -/
theorem wp_linkSorted {cmp : Ptr → Ptr → Option ℤ} {key : Ptr → ℕ} (h : s.Lists L)
    (hn : ∀ j, n ∉ L j) (hd : Detached s.nodes n) (hnull : NonNull s.nodes (n :: L k))
    (hc : Compares s.nodes cmp key (n :: L k))
    (hs : (L k).Pairwise fun a b => key a ≤ key b)
    (hq : ∀ nodes pools l₁ l₂, nodes.e = s.nodes.e → L k = l₁ ++ l₂ →
      (l₁ ++ n :: l₂).Pairwise (fun a b => key a ≤ key b) →
      (s.withLists nodes pools).Lists (Function.update L k (l₁ ++ n :: l₂)) →
      Q 0 (s.withLists nodes pools)) :
    wp (onPool k (llLinkNodeSorted n cmp)) Q E s := by
  have hhome : ∀ a ∈ n :: L k, ∀ j, a ∈ L j → j = k := by
    intro a ha j hj
    rcases List.mem_cons.mp ha with rfl | ha
    · exact absurd hj (hn j)
    · exact h.apart a j k hj ha
  rw [wp_onPool]
  refine wp_imp (llLinkNodeSorted_spec (s := ⟨s.nodes, s.pools k⟩) (h.isLl k) (hn k) hd hnull hc hs)
    ?_
  rintro r t ⟨rfl, hoff, l₁, l₂, hL, hl, hsorted⟩
  refine hq _ _ l₁ l₂ hoff.1 hL hsorted (h.replace hoff hhome hl fun a ha => hhome a ?_)
  rw [hL]
  simp only [List.mem_append, List.mem_cons] at ha ⊢
  tauto

/-- A pool that is not empty is rotated. -/
lemma wp_rotate (h : s.Lists L) (hL : L k = n :: l)
    (hq : ∀ nodes pools, nodes.e = s.nodes.e →
      (s.withLists nodes pools).Lists (Function.update L k (l ++ [n])) →
      Q 0 (s.withLists nodes pools)) :
    wp (onPool k llRotate) Q E s := by
  have hk := h.isLl k
  rw [hL] at hk
  have hhome : ∀ a ∈ n :: l, ∀ j, a ∈ L j → j = k := fun a ha j hj =>
    h.apart a j k hj (hL ▸ ha)
  rw [wp_onPool]
  refine wp_imp (llRotate_spec (s := ⟨s.nodes, s.pools k⟩) hk) ?_
  rintro r t ⟨rfl, hoff, hl⟩
  refine hq _ _ hoff.1 (h.replace hoff hhome hl fun a ha => hhome a ?_)
  rcases List.mem_append.mp ha with ha | ha
  · exact .tail n ha
  · exact List.mem_singleton.mp ha ▸ .head _

/-- The size field of a pool is its length. -/
lemma Sched.Lists.size_eq (h : s.Lists L) (k : Pool) : (s.pools k).size = (L k).length :=
  (h.isLl k).links.size_eq

/-- A pool whose size field is zero is left alone by the operations that need a node. -/
lemma wp_onEmpty (hk : (s.pools k).size = 0) (hq : Q (-1) s) :
    wp (onPool k (llUnlinkNode n)) Q E s := by
  rw [wp_onPool, llUnlinkNode, wp_bind, wp_gets, if_pos hk, wp_pure, Function.update_eq_self]
  exact hq

lemma wp_rotate_empty (hk : (s.pools k).size = 0) (hq : Q (-2) s) :
    wp (onPool k llRotate) Q E s := by
  rw [wp_onPool, llRotate, wp_bind, wp_gets, if_pos hk, wp_pure, Function.update_eq_self]
  exact hq

/-- The element at the head of a pool that is not empty. -/
lemma wp_peek {Q : Option Ptr → Sched → Prop} (h : s.Lists L) (hL : L k = n :: l) {tcb : Ptr}
    (he : s.nodes.e n = some tcb) (hq : Q (some tcb) s) : wp (onPool k llPeek) Q E s := by
  have hk := h.isLl k
  rw [hL] at hk
  rw [wp_onPool]
  refine wp_imp (llPeek_spec (s := ⟨s.nodes, s.pools k⟩) hk he) ?_
  rintro r t ⟨rfl, rfl⟩
  rw [Function.update_eq_self]
  exact hq

lemma wp_peek_empty {Q : Option Ptr → Sched → Prop} (hk : (s.pools k).size = 0)
    (hq : Q none s) : wp (onPool k llPeek) Q E s := by
  rw [wp_onPool, llPeek, wp_bind, wp_gets, if_pos hk, wp_pure, Function.update_eq_self]
  exact hq

end ShrekOS
