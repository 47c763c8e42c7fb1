/-
A call that succeeds took only what the heap gave.

* `Blind`: a command that does not ask the heap;
* `Frugal`: the heap loses the answers that were taken and no others; when the command does
  not fail, they were all given, and the answers behind them play no part;
* `Frugal.bind`: the rule for commands in a row, the second of which passes a failure on;
* `vmmMapSections_frugal`, `vmmMapSections_generous`: **a load that succeeds** does so with a
  heap that refuses nothing.

What is known about calls when the heap always answers is thereby known about all calls that
succeed.
-/
import ShrekOS.Mem.UserMap

namespace ShrekOS

open Kit Kit.Cmd Vm

/-- The state with other answers of the heap to come. -/
def Vm.withHeap (s : Vm) (h : List (Option ℕ)) : Vm := { s with heap := h }

@[simp] lemma Vm.withHeap_heap (s : Vm) (h : List (Option ℕ)) : (s.withHeap h).heap = h := rfl

@[simp] lemma Vm.withHeap_withHeap (s : Vm) (h h' : List (Option ℕ)) :
    (s.withHeap h).withHeap h' = s.withHeap h' := rfl

/-- The command does not ask the heap. -/
def Blind {α : Type} (c : VmM α) : Prop :=
  ∀ s h, c (s.withHeap h) = ((c s).1, (c s).2.withHeap h) ∧ (c s).2.heap = s.heap

/-- The command takes answers from the heap in order; `F` are the results of a failure. When
it does not fail, the heap gave all that was asked, and the answers behind do not matter. -/
def Frugal {α : Type} (F : α → Prop) (c : VmM α) : Prop :=
  ∀ s a s', c s = (.ok a, s') → ∃ taken, s.heap = taken ++ s'.heap ∧
    (¬ F a → (∀ r ∈ taken, r ≠ none) ∧
      ∀ h, c (s.withHeap (taken ++ h)) = (.ok a, s'.withHeap h))

/-- All results of the command are in `G`. -/
def Ends {α : Type} (G : α → Prop) (c : VmM α) : Prop :=
  ∀ s a s', c s = (.ok a, s') → G a

namespace Ends

variable {α β : Type} {G : α → Prop}

lemma pure {a : α} (h : G a) : Ends G (Pure.pure a : VmM α) := by
  intro s b s' hrun
  rwa [← Except.ok.inj (congrArg Prod.fst hrun)]

/-- The last command decides. -/
lemma bind {c : VmM β} {k : β → VmM α} (hk : ∀ b, Ends G (k b)) : Ends G (c >>= k) := by
  intro s a s' hrun
  have hseq : (c >>= k) s = seq c k s := rfl
  rw [hseq] at hrun
  unfold seq at hrun
  rcases hcs : c s with ⟨_ | b, s₁⟩
  · rw [hcs] at hrun
    simp at hrun
  · rw [hcs] at hrun
    exact hk b _ _ _ hrun

end Ends

namespace Blind

variable {α β : Type}

lemma pure (a : α) : Blind (Pure.pure a : VmM α) := fun _ _ => ⟨rfl, rfl⟩

lemma gets {f : Vm → α} (h : ∀ s hp, f (s.withHeap hp) = f s) : Blind (Cmd.gets f : VmM α) := by
  intro s hp
  refine ⟨?_, rfl⟩
  rw [Cmd.gets, h]
  rfl

lemma modify {f : Vm → Vm} (h : ∀ s hp, f (s.withHeap hp) = (f s).withHeap hp)
    (hk : ∀ s, (f s).heap = s.heap) : Blind (Cmd.modify f : VmM Unit) := by
  intro s hp
  refine ⟨?_, hk s⟩
  rw [Cmd.modify, h]
  rfl

lemma bind {c : VmM β} {k : β → VmM α} (hc : Blind c) (hk : ∀ b, Blind (k b)) :
    Blind (c >>= k) := by
  intro s h
  obtain ⟨heq, hheap⟩ := hc s h
  show seq c k (s.withHeap h) = ((seq c k s).1, (seq c k s).2.withHeap h) ∧
    (seq c k s).2.heap = s.heap
  unfold seq
  rw [heq]
  rcases hcs : c s with ⟨_ | b, s₁⟩
  · rw [hcs] at hheap
    exact ⟨rfl, hheap⟩
  · rw [hcs] at hheap
    obtain ⟨heq', hheap'⟩ := hk b s₁ h
    exact ⟨heq', hheap'.trans hheap⟩

lemma ite {p : Prop} [Decidable p] {c d : VmM α} (hc : Blind c) (hd : Blind d) :
    Blind (if p then c else d) := by
  split_ifs
  · exact hc
  · exact hd

lemma entry (d i : ℕ) : Blind (entry d i) := gets fun _ _ => rfl

lemma pte (t j : ℕ) : Blind (pte t j) := gets fun _ _ => rfl

lemma setPte (t j v : ℕ) : Blind (setPte t j v) := modify (fun _ _ => rfl) fun _ => rfl

lemma clearTable (t : ℕ) : Blind (clearTable t) := modify (fun _ _ => rfl) fun _ => rfl

lemma setPd (d : ℕ) (pd : PageDirectory) : Blind (setPd d pd) :=
  modify (fun _ _ => rfl) fun _ => rfl

lemma setEntry (d i v : ℕ) : Blind (setEntry d i v) :=
  bind (gets fun _ _ => rfl) fun _ => setPd _ _

lemma free (t : Option ℕ) : Blind (free t) := by
  cases t with
  | none => exact pure ()
  | some a => exact modify (fun _ _ => rfl) fun _ => rfl

lemma liftFm (c : FmM α) : Blind (liftFm c) := fun _ _ => ⟨rfl, rfl⟩

lemma freeResources : ∀ tasks, Blind (freeResources tasks)
  | [] => pure ()
  | _ :: tasks => bind (free _) fun _ => freeResources tasks

lemma pdAbortMapping (d : ℕ) : Blind (pdAbortMapping d) :=
  bind (gets fun _ _ => rfl) fun _ => bind (freeResources _) fun _ =>
    bind (gets fun _ _ => rfl) fun _ => setPd _ _

lemma commitTasks (d : ℕ) : ∀ tasks, Blind (commitTasks d tasks)
  | [] => pure ()
  | _ :: tasks => bind (entry _ _) fun _ => bind (setPte _ _ _) fun _ => commitTasks d tasks

lemma pdCommitMapping (d : ℕ) : Blind (pdCommitMapping d) :=
  bind (gets fun _ _ => rfl) fun _ => bind (commitTasks _ _) fun _ =>
    bind (gets fun _ _ => rfl) fun _ => setPd _ _

lemma pdBeginMapping (d : ℕ) : Blind (pdBeginMapping d) :=
  bind (gets fun _ _ => rfl) fun _ => ite (pure _) (bind (setPd _ _) fun _ => pure _)

lemma pdDeallocFrame (d pAddr : ℕ) : Blind (pdDeallocFrame d pAddr) := by
  refine bind (gets fun _ _ => rfl) fun pd => ?_
  cases pd.pAddrList.find? fun m => m.pAddr = pAddr with
  | none => exact pure _
  | some m => exact bind (setPd _ _) fun _ => pure _

lemma undoFrame (d pAddr : ℕ) : Blind (undoFrame d pAddr) :=
  bind (liftFm _) fun _ => bind (pdDeallocFrame _ _) fun _ => pure _

end Blind

namespace Frugal

variable {α β : Type} {F : β → Prop} {G : α → Prop}

/-- A command that does not ask the heap takes no answer. -/
lemma blind {c : VmM α} (h : Blind c) : Frugal G c := by
  intro s a s' hrun
  refine ⟨[], ?_, fun _ => ⟨by simp, fun hp => ?_⟩⟩
  · have hheap := (h s []).2
    rw [hrun] at hheap
    exact hheap.symm
  · have heq := (h s hp).1
    rw [hrun] at heq
    exact heq

lemma pure (a : α) : Frugal G (Pure.pure a : VmM α) := blind (.pure a)

/-- **Commands in a row**: the first takes its answers, and the second the next ones. -/
lemma bind {c : VmM β} {k : β → VmM α} (hc : Frugal F c) (hk : ∀ b, Frugal G (k b))
    (hfail : ∀ b, F b → Ends G (k b)) : Frugal G (c >>= k) := by
  intro s a s' hrun
  have hseq : ∀ s, (c >>= k) s = seq c k s := fun _ => rfl
  rw [hseq] at hrun
  unfold seq at hrun
  rcases hcs : c s with ⟨_ | b, s₁⟩
  · rw [hcs] at hrun
    simp at hrun
  · rw [hcs] at hrun
    obtain ⟨p, hp, hcp⟩ := hc s b s₁ hcs
    obtain ⟨q, hq, hkq⟩ := hk b s₁ a s' hrun
    refine ⟨p ++ q, by rw [hp, hq, List.append_assoc], fun hG => ?_⟩
    obtain ⟨hgiven, hfirst⟩ := hcp fun hF => hG (hfail b hF _ _ _ hrun)
    obtain ⟨hgiven', hsecond⟩ := hkq hG
    refine ⟨fun r hr => ?_, fun hp => ?_⟩
    · rcases List.mem_append.mp hr with hr | hr
      · exact hgiven r hr
      · exact hgiven' r hr
    · rw [hseq]
      unfold seq
      rw [List.append_assoc, hfirst]
      exact hsecond hp

/-- After a command that does not ask the heap. -/
lemma blind_bind {c : VmM β} {k : β → VmM α} (hc : Blind c) (hk : ∀ b, Frugal G (k b)) :
    Frugal G (c >>= k) :=
  bind (F := fun _ => False) (blind hc) hk fun _ hF => hF.elim

lemma ite {p : Prop} [Decidable p] {c d : VmM α} (hc : Frugal G c) (hd : Frugal G d) :
    Frugal G (if p then c else d) := by
  split_ifs
  · exact hc
  · exact hd

/-- A small request is one answer. -/
lemma malloc : Frugal (· = false) malloc := by
  intro s a s' hrun
  unfold Vm.malloc at hrun
  cases hh : s.heap with
  | nil => simp [hh] at hrun
  | cons r rs =>
      simp only [hh, Prod.mk.injEq, Except.ok.injEq] at hrun
      obtain ⟨rfl, rfl⟩ := hrun
      refine ⟨[r], rfl, fun hr => ⟨by simpa [← Option.isSome_iff_ne_none] using hr, fun h => rfl⟩⟩

/-- A request for a page table is one answer. -/
lemma memalign : Frugal (· = none) memalign := by
  intro s a s' hrun
  unfold Vm.memalign at hrun
  rcases hh : s.heap with _ | ⟨_ | t, rs⟩
  · simp [hh] at hrun
  · simp only [hh, Prod.mk.injEq, Except.ok.injEq] at hrun
    obtain ⟨rfl, rfl⟩ := hrun
    exact ⟨[none], rfl, fun hr => absurd rfl hr⟩
  · simp only [hh] at hrun
    split_ifs at hrun with hfresh
    · simp only [Prod.mk.injEq, Except.ok.injEq] at hrun
      obtain ⟨rfl, rfl⟩ := hrun
      refine ⟨[some t], rfl, fun _ => ⟨by simp, fun h => ?_⟩⟩
      show Vm.memalign (s.withHeap (some t :: h)) = _
      unfold Vm.memalign
      exact if_pos hfresh
    · simp at hrun

lemma createTable (d i f : ℕ) : Frugal (· = none) (createTable d i f) := by
  refine blind_bind (.entry _ _) fun pde => ite (pure _) (bind memalign (fun r => ?_) ?_)
  · cases r with
    | none => exact pure _
    | some a =>
        exact blind_bind (.clearTable _) fun _ => blind_bind (.setEntry _ _ _) fun _ => pure _
  · rintro r rfl
    exact .pure rfl

lemma recordMapping (d v t x : ℕ) (r : Option ℕ) : Frugal (· < 0) (recordMapping d v t x r) := by
  refine blind_bind (.gets fun _ _ => rfl) fun _ => ite ?_
    (blind (.bind (.setPte _ _ _) fun _ => .pure _))
  have hlast : Frugal (· < 0) (do
      if !(← Vm.malloc) then do Vm.free r; Pure.pure (-4) else do
      let pd ← Cmd.gets fun s => s.pds d
      Vm.setPd d (pd.addTask ⟨v, x, r⟩)
      Pure.pure 0 : VmM ℤ) := by
    refine bind malloc (fun b => ite ?_ ?_) ?_
    · exact blind (.bind (.free _) fun _ => .pure _)
    · exact blind (.bind (.gets fun _ _ => rfl) fun _ => .bind (.setPd _ _) fun _ => .pure _)
    · rintro b rfl
      exact .bind fun _ => .pure (by decide)
  refine bind malloc (fun b => ite (pure _) hlast) ?_
  rintro b rfl
  exact .pure (by decide)

lemma pdCreateMapping (d v p x f : ℕ) : Frugal (· < 0) (pdCreateMapping d v p x f) := by
  refine ite (pure _) (bind (createTable _ _ _) (fun r => ?_) ?_)
  · cases r with
    | none => exact pure _
    | some t => exact recordMapping _ _ _ _ _
  · rintro r rfl
    exact .pure (by decide)

lemma pdAllocFrame (d a n : ℕ) : Frugal (· < 0) (pdAllocFrame d a n) := by
  refine blind_bind (.gets fun _ _ => rfl) fun _ => blind_bind (.setPd _ _) fun _ => ?_
  refine bind malloc (fun b => ite (pure _) (bind malloc (fun b => ite (pure _) ?_) ?_)) ?_
  · exact blind (.bind (.gets fun _ _ => rfl) fun _ => .bind (.setPd _ _) fun _ => .pure _)
  · rintro b rfl
    exact .pure (by decide)
  · rintro b rfl
    exact .pure (by decide)

lemma withFrame (d n : ℕ) {c₁ c₂ : ℤ} (h₂ : c₂ < 0) {use : ℕ → VmM ℤ}
    (huse : ∀ a, Frugal (· < 0) (use a)) : Frugal (· < 0) (withFrame d n c₁ c₂ use) := by
  refine blind_bind (.liftFm _) fun r => ?_
  cases r with
  | error _ => exact pure _
  | ok a =>
      refine bind (pdAllocFrame _ _ _) (fun c => ite ?_ (huse a)) ?_
      · exact blind (.bind (.liftFm _) fun _ => .pure _)
      · intro c hc
        rw [if_pos hc]
        exact .bind fun _ => .pure h₂

lemma mapPages (d : ℕ) (secs : List MemSection) (v : UInt32) (a n : ℕ) :
    ∀ k, Frugal (· < 0) (mapPages d secs v a n k)
  | 0 => pure _
  | k + 1 => by
      refine ite (pure _) (bind (pdCreateMapping _ _ _ _ _)
        (fun c => ite (pure _) (mapPages d secs v a n k)) fun c hc => ?_)
      rw [if_pos hc]
      exact .pure (by decide)

end Frugal

/-- The part of `vmm_map_sections` that has a frame. -/
lemma vmmMapSections_frugal (d : ℕ) (secs : List MemSection) (garbage : UInt32 × UInt32) :
    Frugal (· < 0) (vmmMapSections d secs garbage) := by
  refine .ite (.pure _) (.ite (.pure _) (.withFrame d _ (by decide) fun a => ?_))
  refine .blind_bind (.pdBeginMapping d) fun _ => .ite ?_ ?_
  · exact .blind (.bind (.undoFrame _ _) fun _ => .pure _)
  refine .bind (.mapPages _ _ _ _ _ _) (fun c => .ite ?_ ?_) ?_
  · exact .blind (.bind (.pdAbortMapping d) fun _ => .bind (.undoFrame _ _) fun _ => .pure _)
  · exact .blind (.bind (.pdCommitMapping d) fun _ => .pure _)
  · intro c hc
    rw [if_pos hc]
    exact .bind fun _ => .bind fun _ => .pure hc

/-- **A load that succeeds** does the same with a heap that refuses nothing. -/
theorem vmmMapSections_generous {d : ℕ} {secs : List MemSection} {garbage : UInt32 × UInt32}
    {s s' : Vm} {r : ℤ} (hr : 0 ≤ r) (hrun : vmmMapSections d secs garbage s = (.ok r, s')) :
    ∃ h, (∀ x ∈ h, x ≠ none) ∧
      vmmMapSections d secs garbage (s.withHeap h) = (.ok r, s'.withHeap []) := by
  obtain ⟨taken, -, hok⟩ := vmmMapSections_frugal d secs garbage s r s' hrun
  obtain ⟨hgiven, heq⟩ := hok (not_lt.mpr hr)
  refine ⟨taken, hgiven, ?_⟩
  have hnil := heq []
  rwa [List.append_nil] at hnil

end ShrekOS
