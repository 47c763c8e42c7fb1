/-
The growth of the stack by its own page faults: `user/libautostack/autostack.c`, on the
`swexn_execute` and the `swexn` of the kernel.

* `Autostack`, `pageFaultHandler`: the globals of the library and its handler, which ends in a
  call of `swexn` that does not return;
* `pageFault`: a page fault of the thread, from the saved frame to the end of the handler;
* `runFaults`: the instruction is executed again and again, until it does not fault or no handler
  is registered any more;
* `pageFault_after`: what one fault does;
* `runFaults_ends`: **the faults come to an end, and the stack grows just enough**;
* `not_runFaults_ends_gap`: with a page in the way it grows up to that page, and in vain.
-/
import ShrekOS.Handlers.SwexnFrame
import ShrekOS.Lib.Cmd

namespace ShrekOS.StackGrowth

open Kit Kit.Cmd Kit.Ring

/-- `SWEXN_CAUSE_PAGEFAULT`. -/
def swexnCausePagefault : Word := 0xE

/-- `STACK_GROWTH_THRESHOLD`. -/
def stackGrowthThreshold : Word := 4096 * 32

/-- The globals of the library, what is registered for the thread, the pages on which its
instruction does not fault, and what the calls of `new_pages` will return. -/
structure Autostack where
  stackTop : Word
  stackBottom : Word
  exceptionStack : Word
  tcb : Option SwexnHandler
  mapped : Word → Bool
  answers : ℕ → ℤ

/-- How a page fault ends: a context is loaded, or the thread does not come back to its
instruction. -/
inductive HandlerEnd where
  | restored (r : Except CpuFault Cpu)
  | assertFailed
  | panic (msg : String)
  | vanished
  | otherHandler

/-- Commands of the handler. -/
abbrev AutoM (α : Type) : Type := Cmd HandlerEnd Autostack α

/-- The page of an address. -/
def pageOf (a : Word) : Word := a - a % 4096

section

variable (T : Ring.Tables) (m : Word → Word) (c : Cpu)

/-- `swexn`; when it loads a context it does not return. -/
def swexn (esp3 eip arg newureg : Word) : AutoM ℤ := do
  let r ← gets fun s => syscallSwexnCHandler T m c esp3 eip arg newureg s.tcb
  modify fun s => { s with tcb := r.2 }
  match r.1 with
  | .ret n => return n
  | .restored r => fault (.restored r)

/-- `new_pages`. -/
def newPages (base len : Word) : AutoM ℤ := do
  let ret ← gets fun s => s.answers 0
  modify fun s => { s with answers := fun n => s.answers (n + 1) }
  if 0 ≤ ret then
    modify fun s => { s with mapped := fun w => s.mapped w || decide (base ≤ w ∧ w - base < len) }
  return ret

/-- `page_fault_handler`, which is at the address `handler`. -/
def pageFaultHandler (handler args ureg : Word) : AutoM Unit := do
  let cause := (uregAt m ureg).cause
  let cr2 := (uregAt m ureg).cr2
  if cause = swexnCausePagefault ∧ cr2 ≠ 0 then
    require ((← gets Autostack.stackBottom) ≤ (← gets Autostack.stackTop)) .assertFailed
    if cr2 ≤ (← gets Autostack.stackBottom) - stackGrowthThreshold ∨ cr2 < 0x1000000 then
      let _ ← swexn T m c 0 0 args ureg
    let newStackLow := (← gets Autostack.stackBottom) - 4096
    if (← newPages newStackLow 4096) < 0 then
      let _ ← swexn T m c 0 0 args ureg
    modify fun s => { s with stackBottom := newStackLow }
    if (← swexn T m c (← gets Autostack.exceptionStack) handler args ureg) < 0 then
      fault (.panic "Couldn't register autostack handler after page fault")
    fault (.panic "Should never get here")
  let _ ← swexn T m c 0 0 args ureg

end

/-- How a page fault enters the kernel: the memory with the saved frame, the address of the
frame, the uninitialised `ureg_t`, the flags of user programs, and the registers of the system
calls of the handler. -/
structure Entry where
  mem : Word → Word
  stack : Word
  ureg : Ureg
  userEflags : Word
  cpu : Cpu

/-- `page_fault_c_handler`, the return from it, and the handler that it returns to. -/
def pageFault (T : Ring.Tables) (handler cr2 : Word) (e : Entry) : AutoM Unit := do
  let x ← gets fun s =>
    swexnExecute e.ureg cr2 e.userEflags e.mem swexnCausePagefault e.stack true s.tcb
  modify fun s => { s with tcb := x.tcb }
  require (x.ret = 0) .vanished
  require (x.mem (e.stack + 4 * BitVec.ofNat 32 eipIdx) = handler) .otherHandler
  let esp := x.mem (e.stack + 4 * BitVec.ofNat 32 espIdx)
  pageFaultHandler T x.mem e.cpu handler (x.mem (esp + 4)) (x.mem (esp + 8))

/-- The instruction at `cr2` is executed again and again, until it does not fault or nothing is
registered any more: then the next fault is the last one. -/
def runFaults (T : Ring.Tables) (handler cr2 : Word) :
    ℕ → (ℕ → Entry) → Autostack → Option Autostack
  | 0, _, _ => none
  | n + 1, entries, s =>
      if s.mapped (pageOf cr2) ∨ s.tcb = some noHandler then some s
      else match pageFault T handler cr2 (entries 0) s with
        | (.error (.restored _), s') => runFaults T handler cr2 n (fun k => entries (k + 1)) s'
        | _ => none

/-- The entries are faults of a thread in the context `c`, whose frame is not on the exception
stack. -/
structure Entry.Saves (e : Entry) (c : Cpu) (esp3 : Word) : Prop where
  frame : ∃ err, SavedFrame e.mem e.stack c (some err)
  stack_ne : e.stack ≠ 0
  apart : FrameApart e.stack (some 0) esp3

/-- `swexn` takes the context as its `newureg`. -/
def Accepted (c : Cpu) : Prop := ∀ u, HoldsContext u c → checkUregSafety u = 0

/-- The stack is one page larger, and the handler is registered again. -/
def Autostack.grown (s : Autostack) (handler args : Word) : Autostack :=
  { s with
    stackBottom := s.stackBottom - 4096
    tcb := some ⟨s.exceptionStack, handler, args⟩
    mapped := fun w => s.mapped w ||
      decide (s.stackBottom - 4096 ≤ w ∧ w - (s.stackBottom - 4096) < 4096)
    answers := fun n => s.answers (n + 1) }

lemma Autostack.grown_stackBottom (s : Autostack) (handler args : Word) :
    (s.grown handler args).stackBottom = s.stackBottom - 4096 := rfl

/-- The tests of the handler refuse an address. -/
def Autostack.Refuses (s : Autostack) (cr2 : Word) : Prop :=
  cr2 ≤ s.stackBottom - stackGrowthThreshold ∨ cr2 < 0x1000000

instance (s : Autostack) (cr2 : Word) : Decidable (s.Refuses cr2) :=
  inferInstanceAs (Decidable (_ ∨ _))

/-- What a page fault leaves, with a handler that is registered with `args`. -/
def Autostack.afterFault (s : Autostack) (handler args cr2 : Word) : Autostack :=
  if s.Refuses cr2 then { s with tcb := some noHandler }
  else if s.answers 0 < 0 then
    { s with answers := fun n => s.answers (n + 1), tcb := some noHandler }
  else s.grown handler args

variable {T : Ring.Tables} {m : Word → Word} {c k : Cpu} {s : Autostack} {handler args cr2 p : Word}
  {old : SwexnHandler} {e : Entry}

/-! ### One fault -/

/-- A call of `swexn` with a context that is accepted does not return. -/
lemma wp_swexn {Q : ℤ → Autostack → Prop} {E : HandlerEnd → Autostack → Prop} {esp3 eip arg : Word}
    (hsafe : checkUregSafety (uregAt m p) = 0) (hp : p ≠ 0) (hs : s.tcb = some old)
    (hargs : esp3 ≠ 0 ∧ eip ≠ 0 → checkEspSafety esp3 = 0 ∧ checkEipSafety eip = 0)
    (hE : ∀ r, E (.restored r) { s with tcb := some (requestedHandler esp3 eip arg) }) :
    wp (swexn T m k esp3 eip arg p) Q E s := by
  have hend : (syscallSwexnCHandler T m k esp3 eip arg p (some old)).1 = _ :=
    swexn_restores hsafe hp hargs
  have hall := swexn_allOrNothing T m k esp3 eip arg p (some old)
  rw [swexn, wp_bind, wp_gets, wp_bind, wp_modify, hs]
  rcases hcall : syscallSwexnCHandler T m k esp3 eip arg p (some old) with ⟨r, tcb⟩
  rw [hcall] at hend hall
  obtain rfl := hend
  obtain rfl : tcb = some (requestedHandler esp3 eip arg) := hall
  exact hE _

/-- **The handler** grows the stack by a page, or gives up. -/
lemma pageFaultHandler_after (hsafe : checkUregSafety (uregAt m p) = 0) (hp : p ≠ 0)
    (hcause : (uregAt m p).cause = swexnCausePagefault) (hcr2 : (uregAt m p).cr2 = cr2)
    (hs : s.tcb = some old) (htop : s.stackBottom ≤ s.stackTop)
    (hesp : checkEspSafety s.exceptionStack = 0) (heip : checkEipSafety handler = 0)
    (hreg : requestedHandler s.exceptionStack handler args = ⟨s.exceptionStack, handler, args⟩) :
    wp (pageFaultHandler T m k handler args p) (fun _ _ => False)
      (fun r s' => (∃ c', r = .restored c') ∧ s' = s.afterFault handler args cr2) s := by
  have hnone : requestedHandler 0 0 args = noHandler := rfl
  have hargs : (0 : Word) ≠ 0 ∧ (0 : Word) ≠ 0 →
      checkEspSafety 0 = 0 ∧ checkEipSafety 0 = 0 := fun h => absurd rfl h.1
  rw [pageFaultHandler, hcause, hcr2]
  by_cases hnull : cr2 = 0
  · -- a null pointer is below the bound of the second test too
    have hlow : s.afterFault handler args cr2 = { s with tcb := some noHandler } :=
      if_pos (.inr (by rw [hnull]; decide))
    rw [if_neg fun h => h.2 hnull, hlow]
    dsimp only
    rw [wp_bind]
    exact wp_swexn hsafe hp hs hargs fun r => ⟨⟨r, rfl⟩, by rw [hnone]⟩
  · rw [if_pos ⟨rfl, hnull⟩]
    simp only [wp_bind, wp_gets, wp_require]
    refine ⟨fun _ => ?_, fun hno => absurd htop hno⟩
    by_cases hout : s.Refuses cr2
    · have hgiven : s.afterFault handler args cr2 = { s with tcb := some noHandler } := if_pos hout
      rw [if_pos (show _ ∨ _ from hout), wp_bind, hgiven]
      exact wp_swexn hsafe hp hs hargs fun r => ⟨⟨r, rfl⟩, by rw [hnone]⟩
    · rw [if_neg (show ¬ (_ ∨ _) from hout)]
      simp only [wp_gets, newPages, wp_bind, wp_modify]
      by_cases hans : s.answers 0 < 0
      · have hgiven : s.afterFault handler args cr2 =
            { s with answers := fun n => s.answers (n + 1), tcb := some noHandler } := by
          rw [Autostack.afterFault, if_neg hout, if_pos hans]
        rw [if_neg (not_le.mpr hans), hgiven]
        simp only [wp_pure, if_pos hans, wp_bind]
        exact wp_swexn hsafe hp hs hargs fun r => ⟨⟨r, rfl⟩, by rw [hnone]⟩
      · have hgrown : s.afterFault handler args cr2 = s.grown handler args := by
          rw [Autostack.afterFault, if_neg hout, if_neg hans]
        rw [if_pos (not_lt.mp hans), hgrown]
        simp only [wp_modify, wp_pure, if_neg hans, wp_bind, wp_gets]
        refine wp_swexn hsafe hp hs (fun _ => ⟨hesp, heip⟩) fun r => ⟨⟨r, rfl⟩, ?_⟩
        rw [hreg]
        rfl

/-- The handler that is registered by the library. -/
def Autostack.registers (s : Autostack) (handler args : Word) : SwexnHandler :=
  ⟨s.exceptionStack, handler, args⟩

/-- The handler is registered, and STACK_TOP is where it should be. -/
structure Autostack.Ready (s : Autostack) (handler args : Word) : Prop where
  tcb : s.tcb = some (s.registers handler args)
  valid : Registered (s.registers handler args)
  top : s.stackBottom ≤ s.stackTop

/-- What a registered handler asks for, when it is registered again. -/
lemma requestedHandler_self {h : SwexnHandler} (h' : Registered h) :
    requestedHandler h.esp3 h.eip h.arg = h := by
  have hesp3 : h.esp3 ≠ 0 := fun hzero => absurd h'.esp3 (by rw [hzero]; decide)
  have heip : h.eip ≠ 0 := fun hzero => absurd h'.eip (by rw [hzero]; decide)
  exact if_pos ⟨hesp3, heip⟩

/-- The address that the kernel returns to. -/
lemma handlerMem_eip (h : SwexnHandler) (u : Ureg) (fl : Word) (m : Word → Word) (sp : Word) :
    handlerMem h u fl m sp true (sp + 4 * BitVec.ofNat 32 eipIdx) = h.eip :=
  Function.update_self ..

/-- The stack that it returns to. -/
lemma handlerMem_esp (h : SwexnHandler) (u : Ureg) (fl : Word) (m : Word → Word) (sp : Word) :
    handlerMem h u fl m sp true (sp + 4 * BitVec.ofNat 32 espIdx) = h.esp3 - 92 := by
  have hne : ∀ i < 18, i ≠ 16 → sp + 4 * BitVec.ofNat 32 16 ≠ sp + 4 * BitVec.ofNat 32 i := by
    intro i hi hne
    bv_omega
  have hesp : h.esp3 - 92 = h.esp3 - 80 - 4 - 8 := by bv_omega
  have hself : handlerMem h u fl m sp true (sp + 4 * BitVec.ofNat 32 espIdx) = _ :=
    (Function.update_of_ne (hne 13 (by decide) (by decide)) ..).trans <|
      (Function.update_of_ne (hne 14 (by decide) (by decide)) ..).trans <|
      (Function.update_of_ne (hne 15 (by decide) (by decide)) ..).trans <|
      (Function.update_of_ne (hne 17 (by decide) (by decide)) ..).trans <|
      Function.update_self ..
  rw [hself, hesp]

/-- **A page fault** of a thread whose context is accepted ends in its context again. -/
theorem pageFault_after (hs : s.Ready handler args) (he : e.Saves c s.exceptionStack)
    (hc : Accepted c) :
    ∃ r, pageFault T handler cr2 e s = (.error (.restored r), s.afterFault handler args cr2) := by
  obtain ⟨err, hframe⟩ := he.frame
  obtain ⟨v, hholds, hcause, hcr2, heq⟩ := swexnExecute_eq hframe he.stack_ne hs.valid e.ureg cr2
    e.userEflags swexnCausePagefault
  have hap : FrameApart e.stack (some err) (s.registers handler args).esp3 := he.apart
  obtain ⟨mem, hmem⟩ : ∃ mem, mem =
      handlerMem (s.registers handler args) v e.userEflags e.mem e.stack true := ⟨_, rfl⟩
  have hstack : Stacked mem (s.exceptionStack - 92)
      (0 :: args :: (s.exceptionStack - 80) :: v.words) :=
    hmem ▸ stacked_handlerMem hap v e.userEflags e.mem
  have hthree : s.exceptionStack - 92 + 12 = s.exceptionStack - 80 := by bv_omega
  have hureg : uregAt mem (s.exceptionStack - 80) = v := by
    have hwords := Stacked.drop_three hstack
    rw [hthree] at hwords
    exact uregAt_of_stacked hwords
  have hnull : s.exceptionStack - 80 ≠ 0 := by
    have hle : userMemStart ≤ s.exceptionStack.toNat := hs.valid.le
    have hstart : userMemStart = 0x1000000 := rfl
    bv_omega
  have hreturn : mem (e.stack + 4 * BitVec.ofNat 32 eipIdx) = handler :=
    hmem ▸ handlerMem_eip ..
  have hesp : mem (e.stack + 4 * BitVec.ofNat 32 espIdx) = s.exceptionStack - 92 :=
    hmem ▸ handlerMem_esp ..
  have hargs : mem (s.exceptionStack - 92 + 4) = args := hstack.2.1
  have hptr : mem (s.exceptionStack - 92 + 8) = s.exceptionStack - 80 := by
    have height : s.exceptionStack - 92 + 8 = s.exceptionStack - 92 + 4 + 4 := by bv_omega
    rw [height]
    exact hstack.2.2.1
  have hrun : wp (pageFault T handler cr2 e) (fun _ _ => False)
      (fun r s' => (∃ c', r = .restored c') ∧ s' = s.afterFault handler args cr2) s := by
    have hexec : swexnExecute e.ureg cr2 e.userEflags e.mem swexnCausePagefault e.stack true s.tcb =
        ⟨0, mem, some noHandler⟩ := by
      rw [hs.tcb, hmem]
      exact heq
    simp only [pageFault, wp_bind, wp_gets, wp_modify, wp_require, hexec, hreturn, hesp, hargs,
      hptr, not_true_eq_false, false_implies, true_implies, and_true]
    have htcb : ({ s with tcb := some noHandler } : Autostack).tcb = some noHandler := rfl
    exact pageFaultHandler_after (hureg ▸ hc v hholds) hnull (hureg ▸ hcause) (hureg ▸ hcr2) htcb
      hs.top hs.valid.esp3 hs.valid.eip (requestedHandler_self hs.valid)
  rcases hend : pageFault T handler cr2 e s with ⟨_ | _, s'⟩
  · rw [wp, hend] at hrun
    obtain ⟨⟨r, rfl⟩, rfl⟩ := hrun
    exact ⟨r, rfl⟩
  · rw [wp, hend] at hrun
    exact hrun.elim

/-! ### All faults -/

lemma pageOf_toNat (a : Word) : (pageOf a).toNat = a.toNat - a.toNat % 4096 := by
  have hmod : (a % 4096).toNat = a.toNat % 4096 := BitVec.toNat_umod
  have hle := Nat.mod_le a.toNat 4096
  rw [pageOf, BitVec.toNat_sub, hmod]
  omega

lemma Autostack.Ready.ne_noHandler (hs : s.Ready handler args) : s.tcb ≠ some noHandler := by
  rw [hs.tcb]
  intro heq
  have heip : handler = 0 := congrArg SwexnHandler.eip (Option.some.inj heq)
  exact absurd hs.valid.eip (by rw [show (s.registers handler args).eip = 0 from heip]; decide)

/-- The instruction faults, and is executed again. -/
lemma runFaults_fault (hs : s.Ready handler args) {entries : ℕ → Entry}
    (he : ∀ i, (entries i).Saves c s.exceptionStack) (hc : Accepted c)
    (hpage : s.mapped (pageOf cr2) = false) (n : ℕ) :
    runFaults T handler cr2 (n + 1) entries s =
      runFaults T handler cr2 n (fun i => entries (i + 1)) (s.afterFault handler args cr2) := by
  obtain ⟨r, hfault⟩ : ∃ r, pageFault T handler cr2 (entries 0) s = (.error (.restored r), _) :=
    pageFault_after hs (he 0) hc
  have hgoes : ¬ (s.mapped (pageOf cr2) = true ∨ s.tcb = some noHandler) := by
    rw [hpage]
    exact not_or.mpr ⟨Bool.false_ne_true, hs.ne_noHandler⟩
  rw [runFaults, if_neg hgoes, hfault]

/-- Nothing is registered any more: the next fault is the last one. -/
lemma runFaults_given (n : ℕ) (entries : ℕ → Entry) (h : s.tcb = some noHandler) :
    runFaults T handler cr2 (n + 1) entries s = some s := by
  rw [runFaults, if_pos (.inr h)]

/-- The page of the address is mapped. -/
lemma runFaults_mapped (entries : ℕ → Entry) (h : s.mapped (pageOf cr2) = true) :
    runFaults T handler cr2 1 entries s = some s := by
  rw [runFaults, if_pos (.inl h)]

/-- The stack has grown to the page of the address, or the handler gave up, which it does only
if `new_pages` fails. -/
def Autostack.GrownTo (s s' : Autostack) (cr2 : Word) : Prop :=
  ((s'.mapped (pageOf cr2) = true ∧ s'.stackBottom = pageOf cr2) ∨ s'.tcb = some noHandler) ∧
  ((∀ i, 0 ≤ s.answers i) → s'.mapped (pageOf cr2) = true ∧ s'.stackBottom = pageOf cr2)

/-- A fault close to the stack: `new_pages` fails, or the stack grows by a page. -/
lemma runFaults_near (hs : s.Ready handler args) {entries : ℕ → Entry}
    (he : ∀ i, (entries i).Saves c s.exceptionStack) (hc : Accepted c)
    (hpage : s.mapped (pageOf cr2) = false) (hnear : ¬ s.Refuses cr2) :
    (∃ n s', runFaults T handler cr2 n entries s = some s' ∧ s.GrownTo s' cr2) ∨
    (0 ≤ s.answers 0 ∧ ∀ n, runFaults T handler cr2 (n + 1) entries s =
      runFaults T handler cr2 n (fun i => entries (i + 1)) (s.grown handler args)) := by
  have hstep := runFaults_fault (T := T) hs he hc hpage
  rw [Autostack.afterFault, if_neg hnear] at hstep
  by_cases hans : s.answers 0 < 0
  · rw [if_pos hans] at hstep
    exact .inl ⟨2, _, (hstep 1).trans (runFaults_given 0 _ rfl), .inr rfl,
      fun hall => absurd (hall 0) (not_le.mpr hans)⟩
  · rw [if_neg hans] at hstep
    exact .inr ⟨not_lt.mp hans, hstep⟩

/-- The bottom of the stack as a number, when it has grown. -/
lemma Autostack.grown_toNat (hpage : 4096 ≤ s.stackBottom.toNat) :
    (s.grown handler args).stackBottom.toNat = s.stackBottom.toNat - 4096 :=
  BitVec.toNat_sub_of_le hpage

/-- The state after the stack has grown is ready, too. -/
lemma Autostack.Ready.grown (hs : s.Ready handler args) (hpage : 4096 ≤ s.stackBottom.toNat) :
    (s.grown handler args).Ready handler args := by
  have hless : (s.grown handler args).stackBottom ≤ s.stackBottom := by
    rw [BitVec.le_def, Autostack.grown_toNat hpage]
    exact Nat.sub_le ..
  exact ⟨rfl, hs.valid, BitVec.le_trans hless hs.top⟩

/-- A page below the new one is mapped if it was. -/
lemma Autostack.grown_mapped {w : Word} (hlt : w < (s.grown handler args).stackBottom) :
    (s.grown handler args).mapped w = s.mapped w := by
  rw [Autostack.grown_stackBottom] at hlt
  have hout : ¬ (s.stackBottom - 4096 ≤ w ∧ w - (s.stackBottom - 4096) < 4096) := by
    rintro ⟨hno, -⟩
    exact BitVec.not_lt.mpr hno hlt
  change (s.mapped w || decide _) = s.mapped w
  rw [decide_eq_false hout, Bool.or_false]

/-- **The faults at an address that is close enough**: by induction on the number of pages that
are missing. -/
theorem runFaults_grows (hc : Accepted c) (hlow : 0x1000000 ≤ cr2) (pages : ℕ)
    (hpages : (pageOf cr2).toNat + 4096 * (pages + 1) = s.stackBottom.toNat)
    (hs : s.Ready handler args) {entries : ℕ → Entry}
    (he : ∀ i, (entries i).Saves c s.exceptionStack)
    (hnear : s.stackBottom - stackGrowthThreshold < cr2)
    (hfree : ∀ w, w.toNat % 4096 = 0 → pageOf cr2 ≤ w → w < s.stackBottom → s.mapped w = false) :
    ∃ n s', runFaults T handler cr2 n entries s = some s' ∧ s.GrownTo s' cr2 := by
  have hpage := pageOf_toNat cr2
  have hthreshold : stackGrowthThreshold = 0x20000 := rfl
  induction pages generalizing s entries with
  | zero =>
      have hrefuses : ¬ s.Refuses cr2 := not_or.mpr ⟨by bv_omega, by bv_omega⟩
      have hgap : s.mapped (pageOf cr2) = false :=
        hfree _ (by bv_omega) (BitVec.le_refl _) (by bv_omega)
      rcases runFaults_near (T := T) hs he hc hgap hrefuses with hend | ⟨-, hstep⟩
      · exact hend
      · -- the page that is new is the one of the address
        have hbottom : (s.grown handler args).stackBottom = pageOf cr2 := by
          rw [Autostack.grown_stackBottom]
          bv_omega
        have hmapped : (s.grown handler args).mapped (pageOf cr2) = true := by
          have hin : s.stackBottom - 4096 ≤ pageOf cr2 ∧
              pageOf cr2 - (s.stackBottom - 4096) < 4096 := ⟨by bv_omega, by bv_omega⟩
          exact Bool.or_eq_true_iff.mpr (.inr (decide_eq_true hin))
        exact ⟨2, _, (hstep 1).trans (runFaults_mapped _ hmapped), .inl ⟨hmapped, hbottom⟩,
          fun _ => ⟨hmapped, hbottom⟩⟩
  | succ pages ih =>
      have hrefuses : ¬ s.Refuses cr2 := not_or.mpr ⟨by bv_omega, by bv_omega⟩
      have hgap : s.mapped (pageOf cr2) = false :=
        hfree _ (by bv_omega) (BitVec.le_refl _) (by bv_omega)
      rcases runFaults_near (T := T) hs he hc hgap hrefuses with hend | ⟨hans, hstep⟩
      · exact hend
      · have hle : 4096 ≤ s.stackBottom.toNat := by omega
        have hpages' : (pageOf cr2).toNat + 4096 * (pages + 1) =
            (s.grown handler args).stackBottom.toNat := by
          rw [Autostack.grown_toNat hle, ← hpages, Nat.mul_succ 4096 (pages + 1),
            ← Nat.add_assoc, Nat.add_sub_cancel]
        have hnear' : (s.grown handler args).stackBottom - stackGrowthThreshold < cr2 := by
          rw [Autostack.grown_stackBottom]
          bv_omega
        have hfree' : ∀ w, w.toNat % 4096 = 0 → pageOf cr2 ≤ w →
            w < (s.grown handler args).stackBottom → (s.grown handler args).mapped w = false := by
          intro w hw hge hlt
          rw [Autostack.grown_mapped hlt]
          rw [Autostack.grown_stackBottom] at hlt
          exact hfree w hw hge (by bv_omega)
        obtain ⟨n, s', hrun, hgrown, hall⟩ :=
          ih hpages' (hs.grown hle) (fun i => he (i + 1)) hnear' hfree'
        exact ⟨n + 1, s', (hstep n).trans hrun, hgrown, fun h => hall fun i => h (i + 1)⟩

/-- `new_pages` refuses a page that is mapped, in the calls for the pages below the stack. -/
def Autostack.RefusesMapped (s : Autostack) : Prop :=
  ∀ i w, w.toNat + 4096 * (i + 1) = s.stackBottom.toNat → s.mapped w = true → s.answers i < 0

/-- The stack has grown to a place above all pages that are in the way to the address, and the
handler is not registered any more. -/
def Autostack.StoppedAt (s s' : Autostack) (cr2 : Word) : Prop :=
  s'.tcb = some noHandler ∧ s'.stackBottom ≤ s.stackBottom ∧
    ∀ w, w.toNat % 4096 = 0 → pageOf cr2 ≤ w → w < s.stackBottom → s.mapped w = true →
      w < s'.stackBottom

/-- **The faults at an address behind a page that is mapped**: by induction on the number of pages
from there to the stack. -/
theorem runFaults_stops (hc : Accepted c) (hlow : 0x1000000 ≤ cr2) (pages : ℕ)
    (hpages : (pageOf cr2).toNat + 4096 * (pages + 1) = s.stackBottom.toNat)
    (hs : s.Ready handler args) {entries : ℕ → Entry}
    (he : ∀ i, (entries i).Saves c s.exceptionStack)
    (hnear : s.stackBottom - stackGrowthThreshold < cr2)
    (hfault : s.mapped (pageOf cr2) = false) (hrefused : s.RefusesMapped)
    (hgap : ∃ w, w.toNat % 4096 = 0 ∧ pageOf cr2 ≤ w ∧ w < s.stackBottom ∧ s.mapped w = true) :
    ∃ n s', runFaults T handler cr2 n entries s = some s' ∧ s.StoppedAt s' cr2 := by
  have hpage := pageOf_toNat cr2
  have hthreshold : stackGrowthThreshold = 0x20000 := rfl
  induction pages generalizing s entries with
  | zero =>
      -- the only page between them is the one of the address, which is not mapped
      obtain ⟨w, hw, hge, hlt, hmapped⟩ := hgap
      obtain rfl : w = pageOf cr2 := by bv_omega
      rw [hfault] at hmapped
      cases hmapped
  | succ pages ih =>
      have hle : 4096 ≤ s.stackBottom.toNat := by omega
      have hrefuses : ¬ s.Refuses cr2 := not_or.mpr ⟨by bv_omega, by bv_omega⟩
      have hstep := runFaults_fault (T := T) hs he hc hfault
      rw [Autostack.afterFault, if_neg hrefuses] at hstep
      by_cases hans : s.answers 0 < 0
      · rw [if_pos hans] at hstep
        exact ⟨2, _, (hstep 1).trans (runFaults_given 0 _ rfl), rfl, BitVec.le_refl _,
          fun w _ _ hlt _ => hlt⟩
      rw [if_neg hans] at hstep
      -- the page below the stack was not mapped, or it would have been refused
      have hbelow : ∀ w, w.toNat % 4096 = 0 → w < s.stackBottom → s.mapped w = true →
          w < (s.grown handler args).stackBottom := by
        intro w hw hlt hmapped
        by_contra hnot
        have hge := BitVec.le_def.mp (BitVec.not_lt.mp hnot)
        rw [Autostack.grown_toNat hle, Nat.sub_le_iff_le_add] at hge
        have hlt' := BitVec.lt_def.mp hlt
        exact hans (hrefused 0 w (Nat.le_antisymm (by omega) hge) hmapped)
      have hnear' : (s.grown handler args).stackBottom - stackGrowthThreshold < cr2 := by
        rw [Autostack.grown_stackBottom]
        bv_omega
      have hfault' : (s.grown handler args).mapped (pageOf cr2) = false := by
        have hlt : pageOf cr2 < (s.grown handler args).stackBottom := by
          rw [BitVec.lt_def, Autostack.grown_toNat hle]
          omega
        exact (Autostack.grown_mapped hlt).trans hfault
      have hrefused' : (s.grown handler args).RefusesMapped := by
        intro i w hw hmapped
        rw [Autostack.grown_toNat hle, eq_tsub_iff_add_eq_of_le hle] at hw
        have hlt : w < (s.grown handler args).stackBottom := by
          rw [BitVec.lt_def, Autostack.grown_toNat hle]
          omega
        have hw' : w.toNat + 4096 * (i + 1 + 1) = s.stackBottom.toNat := by
          rw [Nat.mul_succ, ← Nat.add_assoc, hw]
        exact hrefused (i + 1) w hw' ((Autostack.grown_mapped hlt).symm.trans hmapped)
      have hgap' : ∃ w, w.toNat % 4096 = 0 ∧ pageOf cr2 ≤ w ∧
          w < (s.grown handler args).stackBottom ∧ (s.grown handler args).mapped w = true := by
        obtain ⟨w, hw, hge, hlt, hmapped⟩ := hgap
        have hlt' := hbelow w hw hlt hmapped
        exact ⟨w, hw, hge, hlt', (Autostack.grown_mapped hlt').trans hmapped⟩
      have hless : (s.grown handler args).stackBottom ≤ s.stackBottom := by
        rw [BitVec.le_def, Autostack.grown_toNat hle]
        omega
      have hpages' : (pageOf cr2).toNat + 4096 * (pages + 1) =
          (s.grown handler args).stackBottom.toNat := by
        rw [Autostack.grown_toNat hle, eq_tsub_iff_add_eq_of_le hle, ← hpages,
          Nat.mul_succ 4096 (pages + 1), Nat.add_assoc]
      obtain ⟨n, s', hrun, htcb, hdown, habove⟩ :=
        ih hpages' (hs.grown hle) (fun i => he (i + 1)) hnear' hfault' hrefused' hgap'
      refine ⟨n + 1, s', (hstep n).trans hrun, htcb, BitVec.le_trans hdown hless, ?_⟩
      intro w hw hge hlt hmapped
      have hlt' := hbelow w hw hlt hmapped
      exact habove w hw hge hlt' ((Autostack.grown_mapped hlt').trans hmapped)

/-- **Automatic stack growth comes to an end**, and grows the stack just enough: to the page of
the address if `new_pages` does not fail; not beyond a page that is in the way; and not at all for
an address that is not close. -/
theorem runFaults_ends (T : Ring.Tables) (c : Cpu) (s : Autostack) (handler args cr2 : Word)
    (entries : ℕ → Entry) (hs : s.Ready handler args)
    (he : ∀ i, (entries i).Saves c s.exceptionStack) (hc : Accepted c)
    (haligned : s.stackBottom.toNat % 4096 = 0) (hcr2 : cr2 < s.stackBottom)
    (hfault : s.mapped (pageOf cr2) = false) :
    (0x1000000 ≤ cr2 ∧ s.stackBottom - stackGrowthThreshold < cr2 →
      (∀ w, w.toNat % 4096 = 0 → pageOf cr2 ≤ w → w < s.stackBottom → s.mapped w = false) →
      ∃ n s', runFaults T handler cr2 n entries s = some s' ∧
        ((s'.mapped (pageOf cr2) = true ∧ s'.stackBottom = pageOf cr2) ∨
          s'.tcb = some noHandler) ∧
        ((∀ i, 0 ≤ s.answers i) →
          s'.mapped (pageOf cr2) = true ∧ s'.stackBottom = pageOf cr2)) ∧
    (0x1000000 ≤ cr2 ∧ s.stackBottom - stackGrowthThreshold < cr2 → s.RefusesMapped →
      (∃ w, w.toNat % 4096 = 0 ∧ pageOf cr2 ≤ w ∧ w < s.stackBottom ∧ s.mapped w = true) →
      ∃ n s', runFaults T handler cr2 n entries s = some s' ∧ s.StoppedAt s' cr2) ∧
    (¬ (0x1000000 ≤ cr2 ∧ s.stackBottom - stackGrowthThreshold < cr2) →
      ∃ n s', runFaults T handler cr2 n entries s = some s' ∧
        s'.stackBottom = s.stackBottom ∧ s'.mapped = s.mapped ∧ s'.tcb = some noHandler) := by
  have hpage := pageOf_toNat cr2
  have hpages : (pageOf cr2).toNat +
      4096 * ((s.stackBottom.toNat - (pageOf cr2).toNat) / 4096 - 1 + 1) =
        s.stackBottom.toNat := by
    have hlt : cr2.toNat < s.stackBottom.toNat := hcr2
    omega
  refine ⟨?near, ?gap, ?far⟩
  case near =>
    rintro ⟨hlow, hnear⟩ hfree
    exact runFaults_grows hc hlow _ hpages hs he hnear hfree
  case gap =>
    rintro ⟨hlow, hnear⟩ hrefused hgap
    exact runFaults_stops hc hlow _ hpages hs he hnear hfault hrefused hgap
  case far =>
    intro hfar
    have hrefuses : s.Refuses cr2 := by
      by_contra hno
      obtain ⟨hbound, hlow⟩ := not_or.mp hno
      exact hfar ⟨BitVec.not_lt.mp hlow, BitVec.not_le.mp hbound⟩
    have hstep := runFaults_fault (T := T) hs he hc hfault
    rw [Autostack.afterFault, if_pos hrefuses] at hstep
    exact ⟨2, _, (hstep 1).trans (runFaults_given 0 _ rfl), rfl, rfl, rfl⟩

/-- The entry of a fault of the context `dividing`. -/
def growingEntry : Entry :=
  ⟨dividingMem (some 0), 0x200000, uregAt (fun _ => 0) 0, 0x202, handlerCpu⟩

/-- A stack of one page, with all pages below it unmapped. -/
def growing : Autostack where
  stackTop := 0xC0000000
  stackBottom := 0xBFFFF000
  exceptionStack := 0x3000000
  tcb := some ⟨0x3000000, 0x1000200, 0⟩
  mapped w := decide (0xBFFFF000 ≤ w)
  answers _ := 0

lemma accepted_dividing : Accepted dividing := fun _ => checkUregSafety_dividing

lemma saves_growingEntry : growingEntry.Saves dividing growing.exceptionStack := by
  refine ⟨⟨0, 0x200030, stacked_storeWords _ (by decide)⟩, by decide, fun i hi j hj => ?_⟩
  have hstack : growingEntry.stack = 0x200000 := rfl
  have hesp3 : growing.exceptionStack = 0x3000000 := rfl
  have hlen : (some (0 : Word)).toList.length = 1 := rfl
  rw [hstack, hesp3]
  bv_omega

/-- The same stack, with a page that is mapped two pages below it. -/
def obstructed : Autostack :=
  { growing with
    mapped := fun w => decide (0xBFFFF000 ≤ w) || decide (w = 0xBFFFD000)
    answers := fun i => if i = 0 then 0 else -1 }

lemma obstructed_refuses : obstructed.RefusesMapped := by
  intro i w hw hmapped
  have hbottom : obstructed.stackBottom.toNat = 0xBFFFF000 := rfl
  refine (if_neg ?_).trans_lt (by decide : (-1 : ℤ) < 0)
  rintro rfl
  rcases Bool.or_eq_true_iff.mp hmapped with hin | hin
  · have hge := of_decide_eq_true hin
    bv_omega
  · have heq := of_decide_eq_true hin
    bv_omega

/-- Three pages are missing below the stack; and a page is in the way. -/
theorem runFaults_ends_growing :
    growing.Ready 0x1000200 0 ∧ growingEntry.Saves dividing growing.exceptionStack ∧
      Accepted dividing ∧
      (∃ n s',
        runFaults flatTables 0x1000200 0xBFFFC123 n (fun _ => growingEntry) growing = some s' ∧
        s'.mapped 0xBFFFC000 = true ∧ s'.stackBottom = 0xBFFFC000) ∧
      ∃ n s',
        runFaults flatTables 0x1000200 0xBFFFC123 n (fun _ => growingEntry) obstructed =
          some s' ∧ obstructed.StoppedAt s' 0xBFFFC123 := by
  have hready : growing.Ready 0x1000200 0 := ⟨rfl, ⟨by decide, by decide⟩, by decide⟩
  have hends := runFaults_ends flatTables dividing growing 0x1000200 0 0xBFFFC123
    (fun _ => growingEntry) hready (fun _ => saves_growingEntry) accepted_dividing (by decide)
    (by decide) (by decide)
  have hfree : ∀ w, w.toNat % 4096 = 0 → pageOf 0xBFFFC123 ≤ w → w < growing.stackBottom →
      growing.mapped w = false := fun w _ _ hlt => decide_eq_false (BitVec.not_le.mpr hlt)
  obtain ⟨n, s', hrun, -, hall⟩ := hends.1 ⟨by decide, by decide⟩ hfree
  obtain ⟨hmapped, hbottom⟩ := hall fun _ => le_rfl
  have hstops := (runFaults_ends flatTables dividing obstructed 0x1000200 0 0xBFFFC123
    (fun _ => growingEntry) ⟨rfl, hready.valid, by decide⟩ (fun _ => saves_growingEntry)
    accepted_dividing (by decide) (by decide) (by decide)).2.1
  exact ⟨hready, saves_growingEntry, accepted_dividing, ⟨n, s', hrun, hmapped, hbottom⟩,
    hstops ⟨by decide, by decide⟩ obstructed_refuses
      ⟨0xBFFFD000, by decide, by decide, by decide, by decide⟩⟩

/-- **A page in the way**: the stack grows by a page, although the address is not one of those
with nothing mapped between them and the stack. -/
theorem not_runFaults_ends_gap :
    ¬ ∀ (T : Ring.Tables) (c : Cpu) (s : Autostack) (handler args cr2 : Word)
      (entries : ℕ → Entry), s.Ready handler args → (∀ i, (entries i).Saves c s.exceptionStack) →
      Accepted c → s.stackBottom.toNat % 4096 = 0 → cr2 < s.stackBottom →
      s.mapped (pageOf cr2) = false → s.RefusesMapped →
      ¬ (0x1000000 ≤ cr2 ∧ s.stackBottom - stackGrowthThreshold < cr2 ∧
        ∀ w, w.toNat % 4096 = 0 → pageOf cr2 ≤ w → w < s.stackBottom → s.mapped w = false) →
      ∃ n s', runFaults T handler cr2 n entries s = some s' ∧
        s'.stackBottom = s.stackBottom ∧ s'.tcb = some noHandler := by
  intro hall
  have hready : obstructed.Ready 0x1000200 0 := ⟨rfl, ⟨by decide, by decide⟩, by decide⟩
  obtain ⟨n, s', hrun, hsame, -⟩ := hall flatTables dividing obstructed 0x1000200 0 0xBFFFC123
    (fun _ => growingEntry) hready (fun _ => saves_growingEntry) accepted_dividing (by decide)
    (by decide) (by decide) obstructed_refuses fun hfree =>
      absurd (hfree.2.2 0xBFFFD000 (by decide) (by decide) (by decide)) (by decide)
  -- the first fault grows the stack, and the second one gives up
  have hfirst (n : ℕ) : runFaults flatTables 0x1000200 0xBFFFC123 (n + 1) (fun _ => growingEntry)
      obstructed = runFaults flatTables 0x1000200 0xBFFFC123 n (fun _ => growingEntry)
        (obstructed.afterFault 0x1000200 0 0xBFFFC123) :=
    runFaults_fault hready (fun _ => saves_growingEntry) accepted_dividing (by decide) n
  have hgrown : obstructed.afterFault 0x1000200 0 0xBFFFC123 = obstructed.grown 0x1000200 0 := by
    rw [Autostack.afterFault, if_neg (by decide), if_neg (by decide)]
  have hsecond (n : ℕ) : runFaults flatTables 0x1000200 0xBFFFC123 (n + 1)
      (fun _ => growingEntry) (obstructed.grown 0x1000200 0) =
        runFaults flatTables 0x1000200 0xBFFFC123 n (fun _ => growingEntry)
          ((obstructed.grown 0x1000200 0).afterFault 0x1000200 0 0xBFFFC123) :=
    runFaults_fault (hready.grown (by decide)) (fun _ => saves_growingEntry)
      accepted_dividing (by decide) n
  rcases n with _ | _ | _ | n
  · cases hrun
  · rw [hfirst] at hrun
    cases hrun
  · rw [hfirst, hgrown, hsecond] at hrun
    cases hrun
  · rw [hfirst, hgrown, hsecond, Autostack.afterFault, if_neg (by decide), if_pos (by decide),
      runFaults_given _ _ rfl, Option.some.injEq] at hrun
    subst hrun
    exact absurd hsame (by decide)

end ShrekOS.StackGrowth
