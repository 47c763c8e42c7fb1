/-
The queues of `kern/data_structures/queue.c`.

* `queueEnq`, `queueDeq`: the operations;
* `IsQueue`: a list in memory holds the given values, in order;
* `queueEnq_spec`, `queueDeq_spec`: **a queue is a sequence**: a value goes in at the end
  and the first one comes out.
-/
import ShrekOS.Data.LlOps

namespace ShrekOS

open Kit Kit.Cmd

/-! ### The operations -/

/-- `queue_enq`. -/
def queueEnq (answer : Option Ptr) (value : Ptr) : LlM ℤ := llAddLast answer value

/-- `queue_deq`. -/
def queueDeq : LlM (Option Ptr) := llRemoveFirst

/-! ### A queue as a sequence -/

/-- The list is well formed and its nodes hold the given values, in order. -/
def IsQueue (nodes : Nodes) (ll : Ll) (vals : List Ptr) : Prop :=
  ∃ l, IsLl nodes ll l ∧ l.map nodes.e = vals.map some

variable {s : LlState} {vals : List Ptr} {v : Ptr}

lemma isQueue_init (nodes : Nodes) : IsQueue nodes llInit [] :=
  ⟨[], ⟨⟨trivial, List.nodup_nil, rfl, rfl, rfl⟩, nofun⟩, rfl⟩

/-- The size field of a queue is its length. -/
lemma IsQueue.size_eq {nodes : Nodes} {ll : Ll} (h : IsQueue nodes ll vals) :
    ll.size = vals.length := by
  obtain ⟨l, hl, hmap⟩ := h
  rw [hl.links.size_eq, ← List.length_map (f := nodes.e), hmap, List.length_map]

/-- The elements of nodes that are not written to stay. -/
lemma map_updated {nodes : Nodes} {l : List Ptr} {n : Ptr} (e : Option Ptr) (hnl : n ∉ l)
    (hmap : l.map nodes.e = vals.map some) :
    l.map (Function.update nodes.e n e) = vals.map some := by
  rw [← hmap]
  exact List.map_congr_left fun m hm => Function.update_of_ne (ne_of_mem_of_not_mem hm hnl) ..

/-- **A value is enqueued at the end.** -/
theorem queueEnq_spec (h : IsQueue s.nodes s.ll vals) (newNode : Ptr) :
    wlp (queueEnq (some newNode) v)
      (fun r s' => r = 0 ∧ IsQueue s'.nodes s'.ll (vals ++ [v])) s := by
  obtain ⟨l, hl, hmap⟩ := h
  by_cases hfree : s.nodes.e newNode = none
  · have hnot : newNode ∉ l := fun hmem => by simpa [hfree] using hl.live newNode hmem
    refine wp_imp (llAddLast_spec hl hfree) ?_
    rintro r s' ⟨rfl, -, hl', he⟩
    refine ⟨rfl, l ++ [newNode], hl', ?_⟩
    rw [he, List.map_append, List.map_append, map_updated _ hnot hmap, List.map_singleton,
      Function.update_self, List.map_singleton]
  · -- `malloc` does not return an address that is in use
    rw [wlp, queueEnq, llAddLast, wp_bind, newLlNode, wp_bind, wp_gets, wp_bind, wp_require]
    exact ⟨fun hno => absurd hno hfree, fun _ => trivial⟩

/-- **The first value is dequeued.** -/
theorem queueDeq_spec {E : Fault → LlState → Prop} (h : IsQueue s.nodes s.ll (v :: vals)) :
    wp queueDeq (fun r s' => r = some v ∧ IsQueue s'.nodes s'.ll vals) E s := by
  obtain ⟨l, hl, hmap⟩ := h
  cases l with
  | nil => simp at hmap
  | cons n l =>
      rw [List.map_cons, List.map_cons, List.cons.injEq] at hmap
      obtain ⟨hv, hmap⟩ := hmap
      have hnl := (List.nodup_cons.mp hl.links.nodup).1
      refine wp_imp (llRemoveFirst_spec hl hv) ?_
      rintro r s' ⟨rfl, -, hl', he⟩
      refine ⟨rfl, l, hl', ?_⟩
      rw [he]
      exact map_updated none hnl hmap

end ShrekOS
