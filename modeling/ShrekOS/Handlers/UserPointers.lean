/-
The system calls that store through a pointer of the user:
`handlers/console_io_handlers.c`, `handlers/misc_handlers.c`,
`handlers/life_cycle_handlers.c` and `thr_deschedule` of `scheduler/thr_helpers.c`, with
what they call of `keyboard.c`, `loader.c`, `console.c` and `scheduler/pcb.c`.

* `pdGetPermissions`: what a process may do at an address;
* `Io`: the state that these calls see, with a record of the addresses that they store to;
* `UserCall`: the calls with their arguments, and `UserCall.run`;
* `StaysOut`: the call stores nothing and fails, or stores to bytes only that its process may
  write in user mode;
* `staysOut_iff`: **exactly when it does**, in terms of the entries of the page tables.

A store in kernel mode asks only for the presence of the page (the write protection of
`cr0` is off), and a page fault ends the call. What the other threads do while a call waits
is a function on the state (`others`).
-/
import ShrekOS.Mem.Ledger

namespace ShrekOS

open Kit Kit.Cmd Vm

/-! ### Permissions -/

/-- `NTH_BIT`. -/
def nthBit (v n : ℕ) : ℕ := if v.testBit n then 1 else 0

/-- `PRIV_USER`. -/
def privUser : ℕ := 1

/-- `ACC_RW`. -/
def accRw : ℕ := 1

/-- `entry_permissions`: the privilege and the access of an entry. -/
def entryPermissions (v : ℕ) : ℕ × ℕ := (nthBit v 2, nthBit v 1)

/-- `pd_get_permissions`: the privilege and the access, or a negative code. -/
def pdGetPermissions (d vAddr : ℕ) : VmM (Except ℤ (ℕ × ℕ)) := do
  let pde ← entry d (pdeIndex vAddr)
  if ¬ entryPresent pde then pure (.error (-2)) else do
  let v ← pte (removeFlags pde) (pteIndex vAddr)
  if ¬ entryPresent v then pure (.error (-3)) else do
  let (pdPriv, pdAccess) := entryPermissions pde
  let (ptPriv, ptAccess) := entryPermissions v
  let combinedPriv := if pdPriv ≠ 0 ∧ ptPriv ≠ 0 then 1 else 0
  let combinedAccess :=
    if combinedPriv ≠ 0 then (if pdAccess ≠ 0 ∧ ptAccess ≠ 0 then 1 else 0) else 1
  pure (.ok (combinedPriv, combinedAccess))

/-! ### The state of the calls -/

/-- An entry of `exec2obj_userapp_TOC`; `execbytes` is the address of the bytes. -/
structure TocEntry where
  execname : String
  execbytes : UInt32
  execlen : ℤ

/-- A `char *` that names a file. -/
inductive FileName where
  | null
  | unreadable
  | text (name : String)

/-- `pcb_metadata_t`. -/
structure StatusMetadata where
  status : ℤ
  originalTid : ℤ

/-- The virtual memory and the page directory in use, the words of the keyboard buffer from
the oldest on and its size, the files, the hardware cursor, the children of the process
and their statuses, and the memory. -/
structure Io where
  vm : Vm
  cur : ℕ
  keyboard : List UInt8
  keyboardSize : ℕ
  toc : List TocEntry
  hardwareCursor : ℤ
  numChildProc : ℤ
  statusQueue : List StatusMetadata
  mem : UInt32 → UInt8

/-- What ends a call: a page fault, or a fault of the virtual memory manager. -/
inductive Trap where
  | pageFault (addr : UInt32)
  | vm (f : Fault)

/-- Commands of the system calls, on the state and the addresses stored to so far. -/
abbrev IoM (α : Type) : Type := Cmd Trap (Io × List UInt32) α

namespace Io

/-- The entry of the page directory for the address. -/
def pde (s : Io) (a : UInt32) : ℕ := (s.vm.pds s.cur).directory (pdeIndex a.toNat)

/-- The entry of the page table for the address. -/
def pte (s : Io) (a : UInt32) : ℕ := s.vm.pt (removeFlags (s.pde a)) (pteIndex a.toNat)

/-- The processor finds a page at the address. -/
def present (s : Io) (a : UInt32) : Bool := entryPresent (s.pde a) && entryPresent (s.pte a)

/-- Both entries for the address have the bits for user mode and for writing. -/
def userBits (s : Io) (a : UInt32) : Prop :=
  ((s.pde a).testBit 2 ∧ (s.pte a).testBit 2) ∧ (s.pde a).testBit 1 ∧ (s.pte a).testBit 1

/-- Read the state. -/
def read {α : Type} (f : Io → α) : IoM α := gets fun s => f s.1

/-- Change the state, the bytes of the user apart. -/
def change (f : Io → Io) : IoM Unit := modify fun s => (f s.1, s.2)

/-- A question to the virtual memory manager about the current page directory. -/
def ask {α : Type} (c : ℕ → VmM α) : IoM α := fun s =>
  match c s.1.cur s.1.vm with
  | (.ok a, vm) => (.ok a, ({ s.1 with vm := vm }, s.2))
  | (.error e, vm) => (.error (.vm e), ({ s.1 with vm := vm }, s.2))

instance (s : Io) (as : List UInt32) : Decidable (∀ a ∈ as, s.present a) := List.decidableBAll _ as

/-- An access to bytes in kernel mode. -/
def access (as : List UInt32) : IoM Unit := do
  let s ← read id
  require (∀ a ∈ as, s.present a) (.pageFault (as.headD 0))

/-- Store the byte `v a` at each address `a` of the list: all of them or, on a page fault,
nothing. -/
def store (as : List UInt32) (v : UInt32 → UInt8) : IoM Unit := do
  access as
  modify fun s => ({ s.1 with mem := fun a => if a ∈ as then v a else s.1.mem a }, s.2 ++ as)

/-- `memcpy` of `n` bytes that `load` reads. -/
def memcpy (dst : UInt32) (n : ℕ) (load : ℕ → IoM UInt8) : IoM Unit :=
  upTo n fun i => do
    let v ← load i
    store [dst + UInt32.ofNat i] fun _ => v

/-- Byte `i` of a word, from the lowest on. -/
def wordByte (v : ℤ) (i : ℕ) : UInt8 := UInt8.ofNat ((v / 2 ^ (8 * i)) % 2 ^ 8).toNat

/-- The addresses of the four bytes of a word. -/
def word (a : UInt32) : List UInt32 := [a, a + 1, a + 2, a + 3]

/-- Store a word. -/
def storeWord (a : UInt32) (v : ℤ) : IoM Unit :=
  store (word a) fun b => wordByte v (b - a).toNat

/-- The word at an address. -/
def loadWord (s : Io) (a : UInt32) : ℕ :=
  (s.mem a).toNat + 2 ^ 8 * (s.mem (a + 1)).toNat + 2 ^ 16 * (s.mem (a + 2)).toNat +
    2 ^ 24 * (s.mem (a + 3)).toNat

end Io

open Io

/-! ### The calls -/

/-- The loop of `keyboard_read` over the last `k` characters, with those read so far:
the line, unless the buffer runs out, and the rest of the buffer. -/
def readLine : ℕ → List UInt8 → List UInt8 → Option (List UInt8) × List UInt8
  | 0, temp, rest => (some temp, rest)
  | _ + 1, _, [] => (none, [])
  | k + 1, temp, c :: rest =>
      if c = 10 then (some (if temp = [] then [c] else temp), rest)
      else readLine k (temp ++ [c]) rest

/-- `keyboard_read`. -/
def keyboardRead (others : Io → Io) (len : ℤ) (buf : UInt32) : IoM ℤ := do
  if len ≤ 0 ∨ buf = 0 then pure (-1) else do
  -- `sem_wait(&k->sem)` and `mutex_lock(&(k->m))`
  change others
  let (line, rest) ← read fun s => readLine len.toNat [] s.keyboard
  change fun s => { s with keyboard := rest }
  match line with
  | none => pure (-2)
  | some line => do
      memcpy buf line.length fun i => pure (line.getD i 0)
      pure line.length

/-- `syscall_readline_c_handler`. -/
def syscallReadline (others : Io → Io) (len : ℤ) (buf : UInt32) : IoM ℤ := do
  let maxLen ← read Io.keyboardSize
  if buf = 0 ∨ len < 0 ∨ maxLen < len then pure (-1) else do
  match ← ask (pdGetPermissions · buf.toNat) with
  | .error _ => pure (-3)
  | .ok (priv, access) =>
      if priv ≠ privUser ∧ access ≠ accRw then pure (-4)
      else keyboardRead others len buf

/-- The number of bytes that `getbytes` copies, in 32-bit arithmetic. -/
def TocEntry.numBytes (e : TocEntry) (offset size : ℤ) : ℤ :=
  if Int.bmod (size + offset) (2 ^ 32) > e.execlen then Int.bmod (e.execlen - offset) (2 ^ 32)
  else size

/-- A byte of the file. -/
def TocEntry.load (e : TocEntry) (offset : ℤ) (i : ℕ) : IoM UInt8 := do
  let a := e.execbytes + UInt32.ofNat (offset % 2 ^ 32).toNat + UInt32.ofNat i
  access [a]
  read fun s => s.mem a

/-- `getbytes`; the number of bytes is an unsigned one for `memcpy`. -/
def getbytes (filename : String) (offset size : ℤ) (buf : UInt32) : IoM ℤ := do
  match ← read fun s => s.toc.find? fun e => e.execname = filename with
  | none => pure (-1)
  | some e => do
      let numBytes := e.numBytes offset size
      memcpy buf (numBytes % 2 ^ 32).toNat (e.load offset)
      pure numBytes

/-- `syscall_readfile_c_handler`. -/
def syscallReadfile (filename : FileName) (buf : UInt32) (count offset : ℤ) : IoM ℤ := do
  match filename with
  | .null => pure (-1)
  | .unreadable => if count < 0 ∨ offset < 0 then pure (-2) else fault (.pageFault 0)
  | .text name =>
      if count < 0 ∨ offset < 0 then pure (-2) else getbytes name offset count buf

/-- `pcb_wait_on_status`: the original thread id, or a negative code. -/
def pcbWaitOnStatus (others : Io → Io) (statusPtr : UInt32) : IoM (Except ℤ ℤ) := do
  if (← read Io.numChildProc) = 0 then pure (.error (-2)) else do
  -- `sem_wait(&(pcb->wait_sem))` and `mutex_lock(&(pcb->m))`
  change others
  match ← read Io.statusQueue with
  | [] => pure (.error (-2))
  | metadata :: queue => do
      change fun s => { s with statusQueue := queue }
      if statusPtr ≠ 0 then storeWord statusPtr metadata.status else pure ()
      pure (.ok metadata.originalTid)

/-- `syscall_wait_c_handler`. -/
def syscallWait (others : Io → Io) (statusPtr : UInt32) : IoM ℤ := do
  match ← pcbWaitOnStatus others statusPtr with
  | .error _ => pure (-2)
  | .ok originalPid => do
      change fun s => { s with numChildProc := s.numChildProc - 1 }
      pure originalPid

/-- `CONSOLE_WIDTH`. -/
def consoleWidth : ℤ := 80

/-- `C_CONSOLE_SIZE`, which is `C_HIDDEN_OFFSET` too. -/
def consoleSize : ℤ := consoleWidth * 25

/-- `hardware_to_logical`. -/
def hardwareToLogical (hpos : ℤ) : ℤ :=
  if consoleSize ≤ hpos ∧ hpos < consoleSize + consoleSize then hpos - consoleSize
  else if 0 ≤ hpos ∧ hpos < consoleSize then hpos
  else -1

/-- `get_cursor`, which is `syscall_get_cursor_pos_c_handler`. -/
def getCursor (row col : UInt32) : IoM ℤ := do
  if row = 0 ∨ col = 0 then pure (-1) else do
  let lpos := hardwareToLogical (← read Io.hardwareCursor)
  if lpos = -1 then pure (-1) else do
  storeWord row (lpos / consoleWidth)
  storeWord col (lpos % consoleWidth)
  pure 0

/-- `xchng`. -/
def xchng (a : UInt32) (v : ℤ) : IoM ℕ := do
  let old ← read fun s => s.loadWord a
  storeWord a v
  pure old

/-- `thr_deschedule`, which is `syscall_deschedule_c_handler`; `descheduled` is what
`scheduler_deschedule_current_safe` returns. -/
def syscallDeschedule (descheduled : ℤ) (reject : UInt32) : IoM ℤ := do
  match ← ask (pdGetMapping · reject.toNat) with
  | .error _ => pure (-3)
  | .ok _ => do
      if (← xchng reject 0) ≠ 0 then pure 0 else
      if descheduled < 0 then pure (-3) else pure 0

/-- A system call that stores through a pointer, with its arguments and what it gets from
outside: what the other threads do while it waits, and whether it is descheduled. -/
inductive UserCall where
  | readline (others : Io → Io) (len : ℤ) (buf : UInt32)
  | readfile (filename : FileName) (buf : UInt32) (count offset : ℤ)
  | wait (others : Io → Io) (statusPtr : UInt32)
  | getCursorPos (row col : UInt32)
  | deschedule (descheduled : ℤ) (reject : UInt32)

/-- The handler of the call. -/
def UserCall.run : UserCall → IoM ℤ
  | .readline others len buf => syscallReadline others len buf
  | .readfile filename buf count offset => syscallReadfile filename buf count offset
  | .wait others statusPtr => syscallWait others statusPtr
  | .getCursorPos row col => getCursor row col
  | .deschedule descheduled reject => syscallDeschedule descheduled reject

/-! ### Staying out of the kernel -/

/-- `pd_get_permissions` reports `PRIV_USER` and `ACC_RW`. -/
def Io.UserRw (s : Io) (a : UInt32) : Prop :=
  wp (pdGetPermissions s.cur a.toNat) (fun r _ => r = .ok (privUser, accRw))
    (fun _ _ => False) s.vm

/-- Each byte stored to is writable for the user. -/
def OnlyUser (s : Io × List UInt32) : Prop := ∀ a ∈ s.2, s.1.UserRw a

/-- The call fails without storing, or stores to bytes only that are writable for the user. -/
def StaysOut (call : UserCall) (s : Io) : Prop :=
  wp call.run (fun r s' => (r < 0 ∧ s'.2 = []) ∨ OnlyUser s') (fun _ s' => OnlyUser s') (s, [])

/-- Every byte of a copy up to the first that the processor does not find, in the source or
in the destination, is marked for the user. -/
def Io.CopyMarked (s : Io) (dst : UInt32) (n : ℕ) (readable : ℕ → Bool) : Prop :=
  ∀ i < n, (∀ j ≤ i, readable j ∧ s.present (dst + UInt32.ofNat j)) →
    s.userBits (dst + UInt32.ofNat i)

/-- A word whose bytes are all present is marked for the user. -/
def Io.WordMarked (s : Io) (a : UInt32) : Prop :=
  (∀ b ∈ word a, s.present b) → ∀ b ∈ word a, s.userBits b

/-- The condition on the arguments and the page tables under which a call stays out. -/
def Marked (s : Io) : UserCall → Prop
  | .readline others len buf =>
      buf ≠ 0 → 0 < len → len ≤ s.keyboardSize → s.present buf →
        ∀ line ∈ (readLine len.toNat [] (others s).keyboard).1,
          (others s).CopyMarked buf line.length fun _ => true
  | .readfile filename buf count offset =>
      ∀ name, filename = .text name → 0 ≤ count → 0 ≤ offset →
        ∀ e ∈ s.toc.find? fun e => e.execname = name,
          s.CopyMarked buf (e.numBytes offset count % 2 ^ 32).toNat fun i =>
            s.present (e.execbytes + UInt32.ofNat (offset % 2 ^ 32).toNat + UInt32.ofNat i)
  | .wait others statusPtr =>
      s.numChildProc ≠ 0 → (others s).statusQueue ≠ [] → statusPtr ≠ 0 →
        (others s).WordMarked statusPtr
  | .getCursorPos row col =>
      row ≠ 0 → col ≠ 0 → hardwareToLogical s.hardwareCursor ≠ -1 →
        s.WordMarked row ∧ ((∀ b ∈ word row, s.present b) → s.WordMarked col)
  | .deschedule _ reject => s.present reject → s.WordMarked reject

/-! ### What the commands store -/

variable {s : Io} {l : List UInt32} {a dst : UInt32} {n : ℕ} {E : Trap → Io × List UInt32 → Prop}

@[simp] lemma wp_read {α : Type} {Q : α → Io × List UInt32 → Prop} (f : Io → α) :
    wp (read f) Q E (s, l) ↔ Q (f s) (s, l) := Iff.rfl

@[simp] lemma wp_change {Q : Unit → Io × List UInt32 → Prop} (f : Io → Io) :
    wp (change f) Q E (s, l) ↔ Q () (f s, l) := Iff.rfl

lemma wp_ask {α : Type} {Q : α → Io × List UInt32 → Prop} (c : ℕ → VmM α) :
    wp (ask c) Q E (s, l) ↔
      wp (c s.cur) (fun a vm => Q a ({ s with vm := vm }, l))
        (fun e vm => E (.vm e) ({ s with vm := vm }, l)) s.vm := by
  unfold wp ask
  rcases c s.cur s.vm with ⟨_ | _, _⟩ <;> rfl

/-- The answer of `pd_get_mapping`. -/
lemma wp_pdGetMapping {Q : Except ℤ ℕ → Vm → Prop} {F : Fault → Vm → Prop} :
    wp (pdGetMapping s.cur a.toNat) Q F s.vm ↔
      if s.present a then Q (.ok (s.pte a)) s.vm
      else Q (.error (if entryPresent (s.pde a) then -3 else -2)) s.vm := by
  simp only [pdGetMapping, wp_bind, wp_entry, wp_ite, wp_pte, wp_pure]
  change (¬ entryPresent (s.pde a) → _) ∧ (¬ ¬ entryPresent (s.pde a) →
    (¬ entryPresent (s.pte a) → _) ∧ (¬ ¬ entryPresent (s.pte a) → Q (.ok (s.pte a)) s.vm)) ↔ _
  by_cases h₁ : entryPresent (s.pde a) <;> by_cases h₂ : entryPresent (s.pte a) <;>
    simp [present, h₁, h₂]

/-- The privilege and the access that the bits of both entries give. -/
def Io.permissions (s : Io) (a : UInt32) : ℕ × ℕ :=
  if (s.pde a).testBit 2 ∧ (s.pte a).testBit 2 then
    (1, if (s.pde a).testBit 1 ∧ (s.pte a).testBit 1 then 1 else 0)
  else (0, 1)

lemma wp_ask_pdGetMapping {Q : Except ℤ ℕ → Io × List UInt32 → Prop} :
    wp (ask (pdGetMapping · a.toNat)) Q E (s, l) ↔
      if s.present a then Q (.ok (s.pte a)) (s, l)
      else Q (.error (if entryPresent (s.pde a) then -3 else -2)) (s, l) := by
  rw [wp_ask, wp_pdGetMapping]

/-- The answer of `pd_get_permissions`. -/
lemma wp_pdGetPermissions {Q : Except ℤ (ℕ × ℕ) → Vm → Prop} {F : Fault → Vm → Prop} :
    wp (pdGetPermissions s.cur a.toNat) Q F s.vm ↔
      if s.present a then Q (.ok (s.permissions a)) s.vm
      else Q (.error (if entryPresent (s.pde a) then -3 else -2)) s.vm := by
  have hbit : ∀ v k, nthBit v k ≠ 0 ↔ v.testBit k := by
    intro v k
    unfold nthBit
    split_ifs with h <;> simp [h]
  simp only [pdGetPermissions, wp_bind, wp_entry, wp_ite, wp_pte, wp_pure, entryPermissions, hbit]
  change (¬ entryPresent (s.pde a) → _) ∧ (¬ ¬ entryPresent (s.pde a) →
    (¬ entryPresent (s.pte a) → _) ∧ (¬ ¬ entryPresent (s.pte a) → Q (.ok (if
      (s.pde a).testBit 2 ∧ (s.pte a).testBit 2 then 1 else 0, if (if
        (s.pde a).testBit 2 ∧ (s.pte a).testBit 2 then 1 else 0) ≠ 0 then if
          (s.pde a).testBit 1 ∧ (s.pte a).testBit 1 then 1 else 0 else 1)) s.vm)) ↔ _
  by_cases h₁ : entryPresent (s.pde a) <;> by_cases h₂ : entryPresent (s.pte a) <;>
    simp only [present, h₁, h₂, permissions]
  · by_cases h₃ : (s.pde a).testBit 2 ∧ (s.pte a).testBit 2 <;> simp [h₃]
  all_goals simp

lemma wp_ask_pdGetPermissions {Q : Except ℤ (ℕ × ℕ) → Io × List UInt32 → Prop} :
    wp (ask (pdGetPermissions · a.toNat)) Q E (s, l) ↔
      if s.present a then Q (.ok (s.permissions a)) (s, l)
      else Q (.error (if entryPresent (s.pde a) then -3 else -2)) (s, l) := by
  rw [wp_ask, wp_pdGetPermissions]

/-- `pd_get_permissions` reports the bits of both entries. -/
lemma userRw_iff (s : Io) (a : UInt32) : s.UserRw a ↔ s.present a ∧ s.userBits a := by
  rw [UserRw, wp_pdGetPermissions, userBits, permissions]
  by_cases h₁ : s.present a
  · by_cases h₂ : (s.pde a).testBit 2 ∧ (s.pte a).testBit 2
    · by_cases h₃ : (s.pde a).testBit 1 ∧ (s.pte a).testBit 1 <;>
        simp [h₁, h₂, h₃, privUser, accRw]
    · simp [h₁, h₂, privUser]
  · simp [h₁]

/-- The check of `readline` refuses nothing: where the privilege is not that of the user, the
access is reported as read and write. -/
lemma permissions_not_refused (s : Io) (a : UInt32) :
    ¬ ((s.permissions a).1 ≠ privUser ∧ (s.permissions a).2 ≠ accRw) := by
  unfold permissions
  split_ifs <;> simp [privUser, accRw]

lemma wp_store {Q : Unit → Io × List UInt32 → Prop} {t : Io × List UInt32} (as : List UInt32)
    (v : UInt32 → UInt8) :
    wp (store as v) Q E t ↔
      ((∀ a ∈ as, t.1.present a) →
        Q () ({ t.1 with mem := fun a => if a ∈ as then v a else t.1.mem a }, t.2 ++ as)) ∧
      ((¬ ∀ a ∈ as, t.1.present a) → E (.pageFault (as.headD 0)) t) := by
  obtain ⟨s, l⟩ := t
  simp only [store, access, wp_bind, wp_read, wp_require, wp_modify, id_eq]

/-- The address space is that of `s`, and the addresses stored to are those in `P`. -/
structure Wrote (s : Io) (P : UInt32 → Prop) (t : Io × List UInt32) : Prop where
  vm : t.1.vm = s.vm
  cur : t.1.cur = s.cur
  mem_iff : ∀ a, a ∈ t.2 ↔ P a

namespace Wrote

variable {P : UInt32 → Prop} {t : Io × List UInt32}

lemma pde_eq (h : Wrote s P t) (a : UInt32) : t.1.pde a = s.pde a := by
  rw [pde, pde, h.vm, h.cur]

lemma pte_eq (h : Wrote s P t) (a : UInt32) : t.1.pte a = s.pte a := by
  rw [Io.pte, Io.pte, h.pde_eq, h.vm]

lemma present_eq (h : Wrote s P t) (a : UInt32) : t.1.present a = s.present a := by
  rw [present, present, h.pde_eq, h.pte_eq]

/-- What has been stored stays out of the kernel when what is in `P` is present and marked. -/
lemma onlyUser_iff (h : Wrote s P t) : OnlyUser t ↔ ∀ a, P a → s.present a ∧ s.userBits a := by
  unfold OnlyUser
  simp only [userRw_iff, h.mem_iff, h.present_eq, userBits, h.pde_eq, h.pte_eq]

/-- A store of all the bytes of a list, or of none. -/
lemma store (h : Wrote s P t) (as : List UInt32) (v : UInt32 → UInt8) :
    wp (Io.store as v)
      (fun _ t' => (∀ a ∈ as, s.present a) ∧ Wrote s (fun a => P a ∨ a ∈ as) t')
      (fun _ t' => (¬ ∀ a ∈ as, s.present a) ∧ t' = t) t := by
  rw [wp_store]
  simp only [h.present_eq]
  refine ⟨fun hp => ⟨hp, h.vm, h.cur, fun a => ?_⟩, fun hp => ⟨hp, trivial⟩⟩
  rw [List.mem_append, h.mem_iff]

/-- The bytes that a copy stores to before it ends or faults. -/
def copied (s : Io) (dst : UInt32) (n : ℕ) (readable : ℕ → Bool) (a : UInt32) : Prop :=
  ∃ i < n, a = dst + UInt32.ofNat i ∧ ∀ j ≤ i, readable j ∧ s.present (dst + UInt32.ofNat j)

/-- **What `memcpy` stores to**: the bytes up to the first page fault. -/
lemma memcpy (h : Wrote s (fun _ => False) t) (n : ℕ) {load : ℕ → IoM UInt8}
    {readable : ℕ → Bool}
    (hload : ∀ i P t, Wrote s P t → wp (load i) (fun _ t' => readable i ∧ t' = t)
      (fun _ t' => ¬ readable i ∧ t' = t) t) :
    wp (Io.memcpy dst n load) (fun _ => Wrote s (copied s dst n readable))
      (fun _ => Wrote s (copied s dst n readable)) t := by
  -- all bytes copied so far were found
  let ok : ℕ → Prop := fun j => readable j ∧ s.present (dst + UInt32.ofNat j)
  have hstop : ∀ k < n, ¬ ok k → copied s dst n readable = copied s dst k readable := by
    intro k hk hnot
    funext a
    refine propext ⟨?_, fun ⟨i, hi, ha⟩ => ⟨i, by omega, ha⟩⟩
    rintro ⟨i, hi, rfl, hok⟩
    refine ⟨i, ?_, rfl, hok⟩
    by_contra hki
    exact hnot (hok k (by omega))
  refine wp_imp (wp_upTo _
    (fun k t => (∀ j < k, ok j) ∧ Wrote s (copied s dst k readable) t) n ⟨?_, ?_⟩ ?_) ?_
  · intro j hj
    exact absurd hj (by omega)
  · refine ⟨h.vm, h.cur, fun a => (h.mem_iff a).trans ⟨False.elim, ?_⟩⟩
    rintro ⟨i, hi, -⟩
    exact absurd hi (by omega)
  · rintro k t hk ⟨hok, hw⟩
    rw [wp_bind]
    refine wp_mono (hload k _ t hw) ?_ ?_
    · rintro v _ ⟨hread, rfl⟩
      refine wp_mono (hw.store [dst + UInt32.ofNat k] _) ?_ ?_
      · rintro _ t' ⟨hpres, hw'⟩
        have hk' : ok k := ⟨hread, hpres _ (.head _)⟩
        have hall : ∀ j < k + 1, ok j := by
          intro j hj
          rcases Nat.lt_succ_iff_lt_or_eq.mp hj with hj | rfl
          · exact hok j hj
          · exact hk'
        refine ⟨hall, hw'.vm, hw'.cur, fun a => (hw'.mem_iff a).trans ?_⟩
        rw [List.mem_singleton]
        constructor
        · rintro (⟨i, hi, ha⟩ | rfl)
          · exact ⟨i, by omega, ha⟩
          · exact ⟨k, by omega, rfl, fun j hj => hall j (by omega)⟩
        · rintro ⟨i, hi, rfl, hi'⟩
          rcases Nat.lt_succ_iff_lt_or_eq.mp hi with hi | rfl
          · exact .inl ⟨i, hi, rfl, hi'⟩
          · exact .inr rfl
      · rintro _ _ ⟨hpres, rfl⟩
        rw [hstop k hk fun hk' => hpres (by simpa using hk'.2)]
        exact hw
    · rintro _ _ ⟨hread, rfl⟩
      rw [hstop k hk fun hk' => hread hk'.1]
      exact hw
  · exact fun _ _ ht => ht.2

end Wrote

/-! ### The calls one by one -/

/-- Nothing has been stored yet. -/
lemma wrote_nil (s : Io) : Wrote s (fun _ => False) (s, []) := ⟨rfl, rfl, by simp⟩

lemma onlyUser_nil (s : Io) : OnlyUser (s, []) := nofun

/-- A failure without a store is a case of storing for the user only. -/
lemma failed_or_onlyUser {r : ℤ} {t : Io × List UInt32} :
    (r < 0 ∧ t.2 = []) ∨ OnlyUser t ↔ OnlyUser t := by
  refine or_iff_right_of_imp fun h a ha => ?_
  rw [h.2] at ha
  cases ha

lemma copyMarked_iff {readable : ℕ → Bool} :
    (∀ a, Wrote.copied s dst n readable a → s.present a ∧ s.userBits a) ↔
      s.CopyMarked dst n readable := by
  constructor
  · intro h i hi hok
    exact (h _ ⟨i, hi, rfl, hok⟩).2
  · rintro h _ ⟨i, hi, rfl, hok⟩
    exact ⟨(hok i le_rfl).2, h i hi hok⟩

/-- A copy, as the last store of a call. -/
lemma onlyUser_memcpy {Q : Unit → Io × List UInt32 → Prop} {load : ℕ → IoM UInt8}
    {readable : ℕ → Bool}
    (hload : ∀ i P t, Wrote s P t → wp (load i) (fun _ t' => readable i ∧ t' = t)
      (fun _ t' => ¬ readable i ∧ t' = t) t) (hQ : ∀ u t, Q u t ↔ OnlyUser t) :
    wp (Io.memcpy dst n load) Q (fun _ => OnlyUser) (s, []) ↔ s.CopyMarked dst n readable :=
  wp_iff ((wrote_nil s).memcpy n hload)
    (fun u t ht => by rw [hQ u t, ht.onlyUser_iff, copyMarked_iff])
    fun _ t ht => by rw [ht.onlyUser_iff, copyMarked_iff]

lemma wordMarked_iff (h : ∀ b ∈ word a, s.present b) :
    (∀ b, False ∨ b ∈ word a → s.present b ∧ s.userBits b) ↔ s.WordMarked a := by
  simp only [false_or]
  exact ⟨fun hb _ b hm => (hb b hm).2, fun hb b hm => ⟨h b hm, hb h b hm⟩⟩

/-- A word, as the last store of a call. -/
lemma onlyUser_storeWord {Q : Unit → Io × List UInt32 → Prop} (v : ℤ)
    (hQ : ∀ u t, Q u t ↔ OnlyUser t) :
    wp (storeWord a v) Q (fun _ => OnlyUser) (s, []) ↔ s.WordMarked a := by
  refine wp_iff ((wrote_nil s).store (word a) _) ?_ ?_
  · rintro u t ⟨hp, ht⟩
    rw [hQ u t, ht.onlyUser_iff, wordMarked_iff hp]
  · rintro _ _ ⟨hp, rfl⟩
    exact iff_of_true (onlyUser_nil s) fun h => absurd h hp

lemma staysOut_readline (others : Io → Io) (len : ℤ) (buf : UInt32) :
    StaysOut (.readline others len buf) s ↔ Marked s (.readline others len buf) := by
  simp only [StaysOut, UserCall.run, syscallReadline, failed_or_onlyUser, Marked, wp_bind, wp_read,
    wp_ite]
  by_cases hchecks : buf = 0 ∨ len < 0 ∨ (s.keyboardSize : ℤ) < len
  · simp only [hchecks, not_true, false_imp_iff, true_imp_iff, and_true, wp_pure]
    refine iff_of_true (onlyUser_nil s) fun h₁ h₂ h₃ => ?_
    rcases hchecks with h | h | h
    · exact absurd h h₁
    · omega
    · omega
  have hall : buf ≠ 0 ∧ ¬ len < 0 ∧ ¬ (s.keyboardSize : ℤ) < len := by simpa using hchecks
  simp only [hchecks, false_imp_iff, not_false_eq_true, true_imp_iff, true_and,
    wp_ask_pdGetPermissions]
  by_cases hp : s.present buf
  · simp only [hp, if_true, permissions_not_refused, if_false, keyboardRead, wp_ite]
    by_cases hlen : 0 < len
    · have hgo : ¬ (len ≤ 0 ∨ buf = 0) := by
        rintro (h | h)
        · omega
        · exact hall.1 h
      simp only [hgo, false_imp_iff, not_false_eq_true, true_imp_iff, true_and, wp_bind, wp_change,
        wp_read]
      simp only [hall.1, ne_eq, not_false_eq_true, hlen, show len ≤ s.keyboardSize by omega,
        true_imp_iff]
      cases (readLine len.toNat [] (others s).keyboard).1 with
      | none => simp [onlyUser_nil]
      | some line =>
          simp only [Option.mem_def, Option.some.injEq, forall_eq', wp_bind, wp_pure]
          refine onlyUser_memcpy (s := { others s with keyboard := _ }) ?_ fun _ _ => Iff.rfl
          intro i P t _
          rw [wp_pure]
          exact ⟨rfl, rfl⟩
    · simp only [show len ≤ 0 ∨ buf = 0 by omega, true_imp_iff, not_true, false_imp_iff, and_true,
        wp_pure]
      exact iff_of_true (onlyUser_nil s) fun _ h => absurd h hlen
  · simp [hp, onlyUser_nil]

lemma staysOut_readfile (filename : FileName) (buf : UInt32) (count offset : ℤ) :
    StaysOut (.readfile filename buf count offset) s ↔
      Marked s (.readfile filename buf count offset) := by
  simp only [StaysOut, UserCall.run, syscallReadfile, failed_or_onlyUser, Marked]
  cases filename with
  | null => simp [onlyUser_nil]
  | unreadable =>
      rw [wp_ite]
      simp [onlyUser_nil]
  | text name =>
      rw [wp_ite]
      by_cases hneg : count < 0 ∨ offset < 0
      · simp only [hneg, true_imp_iff, not_true, false_imp_iff, and_true, wp_pure]
        refine iff_of_true (onlyUser_nil s) fun _ _ h₁ h₂ => ?_
        omega
      have hpos : 0 ≤ count ∧ 0 ≤ offset := by omega
      simp only [hneg, false_imp_iff, not_false_eq_true, true_imp_iff, true_and, getbytes, wp_bind,
        wp_read, FileName.text.injEq, forall_eq', hpos]
      cases s.toc.find? fun e => e.execname = name with
      | none => simp [onlyUser_nil]
      | some e =>
          simp only [wp_bind, wp_pure, Option.mem_def, Option.some.injEq, forall_eq']
          refine onlyUser_memcpy ?_ fun _ t => Iff.rfl
          rintro i P ⟨t, l⟩ ht
          simp only [TocEntry.load, access, wp_bind, wp_read, wp_require, id_eq, ht.present_eq,
            List.mem_singleton, forall_eq]
          exact ⟨fun h => ⟨h, trivial⟩, fun h => ⟨h, trivial⟩⟩

lemma staysOut_wait (others : Io → Io) (statusPtr : UInt32) :
    StaysOut (.wait others statusPtr) s ↔ Marked s (.wait others statusPtr) := by
  simp only [StaysOut, UserCall.run, syscallWait, pcbWaitOnStatus, failed_or_onlyUser, Marked,
    wp_bind, wp_read, wp_ite]
  by_cases hchild : s.numChildProc = 0
  · simp [hchild, onlyUser_nil]
  simp only [hchild, false_imp_iff, not_false_eq_true, true_imp_iff, true_and, wp_change, wp_read,
    ne_eq]
  cases hq : (others s).statusQueue with
  | nil => simp [onlyUser_nil]
  | cons m q =>
      by_cases hp : statusPtr = 0
      · simp [onlyUser_nil, hp]
      · simp only [hp, wp_bind, wp_change, not_false_eq_true, if_true, true_imp_iff, wp_pure,
          reduceCtorEq]
        exact onlyUser_storeWord (s := { others s with statusQueue := q }) m.status
          fun _ _ => Iff.rfl

lemma staysOut_getCursorPos (row col : UInt32) :
    StaysOut (.getCursorPos row col) s ↔ Marked s (.getCursorPos row col) := by
  simp only [StaysOut, UserCall.run, getCursor, failed_or_onlyUser, Marked, wp_bind,
    wp_read, wp_ite]
  by_cases hnull : row = 0 ∨ col = 0
  · simp only [hnull, true_imp_iff, not_true, false_imp_iff, and_true, wp_pure]
    exact iff_of_true (onlyUser_nil s) fun h₁ h₂ => absurd hnull (by simp [h₁, h₂])
  obtain ⟨hrow, hcol⟩ := not_or.mp hnull
  by_cases hpos : hardwareToLogical s.hardwareCursor = -1
  · simp [hnull, hpos, onlyUser_nil]
  simp only [hpos, false_imp_iff, not_false_eq_true, true_imp_iff, true_and, wp_pure, hrow, hcol,
    ne_eq, false_or]
  refine wp_iff ((wrote_nil s).store (word row) _) ?_ ?_
  · rintro _ t ⟨hp, ht⟩
    -- the second word is stored on top of the first
    refine wp_iff (ht.store (word col) _) ?_ ?_
    · rintro _ t' ⟨hp', ht'⟩
      rw [ht'.onlyUser_iff, ← wordMarked_iff hp, ← wordMarked_iff hp']
      simp only [false_or, or_imp, forall_and]
      tauto
    · rintro _ _ ⟨hp', rfl⟩
      rw [ht.onlyUser_iff, wordMarked_iff hp]
      exact (and_iff_left fun _ h => absurd h hp').symm
  · rintro _ _ ⟨hp, rfl⟩
    exact iff_of_true (onlyUser_nil s) ⟨fun h => absurd h hp, fun h => absurd h hp⟩

lemma staysOut_deschedule (descheduled : ℤ) (reject : UInt32) :
    StaysOut (.deschedule descheduled reject) s ↔ Marked s (.deschedule descheduled reject) := by
  simp only [StaysOut, UserCall.run, syscallDeschedule, failed_or_onlyUser, Marked, wp_bind,
    wp_ask_pdGetMapping]
  by_cases hp : s.present reject
  · simp only [hp, if_true, xchng, wp_bind, wp_read, true_imp_iff]
    refine onlyUser_storeWord _ fun u t => ?_
    simp only [wp_pure, wp_ite]
    tauto
  · simp [hp, onlyUser_nil]

/-- **When a system call stays out of the kernel**: exactly when all that it stores to is
marked for the user in the page tables, which no call checks beyond the first byte. -/
theorem staysOut_iff (call : UserCall) (s : Io) : StaysOut call s ↔ Marked s call := by
  cases call with
  | readline others len buf => exact staysOut_readline others len buf
  | readfile filename buf count offset => exact staysOut_readfile filename buf count offset
  | wait others statusPtr => exact staysOut_wait others statusPtr
  | getCursorPos row col => exact staysOut_getCursorPos row col
  | deschedule descheduled reject => exact staysOut_deschedule descheduled reject

/-- After boot, with a line typed in. -/
def typedIn : Io where
  vm := bootVm 3 8
  cur := 0
  keyboard := [104, 101, 108, 108, 111, 10]
  keyboardSize := 1024
  toc := []
  hardwareCursor := 0
  numChildProc := 0
  statusQueue := []
  mem := fun _ => 0

/-- **`readline` stores into the kernel**: at 0x200000 lies a page of the direct map. -/
theorem not_staysOut_readline : ¬ StaysOut (.readline id 100 0x200000) typedIn := by
  intro h
  have hbits := (staysOut_readline id 100 0x200000).mp h (by decide) (by decide) (by decide)
    (by decide) [104, 101, 108, 108, 111] rfl 0 (by decide) (by decide)
  exact absurd hbits.1.1 (by decide)

end ShrekOS
