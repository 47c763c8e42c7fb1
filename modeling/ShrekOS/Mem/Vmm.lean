/-
The virtual memory manager of `kern/virtual_mem_mgmt/virtual_mem_mgmt.c` and the
memory sections of `mem_section.c`.

* `MemSection`, `msGetBoundingAddr`, `msGetBoundingSection`;
* `vmmMapSections`, `vmmNewUserPage`, `vmmRemoveUserPage`, `vmmDeepCopy`,
  `vmmClearUserSpace`: the operations, with all their error exits;
* `VmOp`: an operation with its arguments, as one step of a run.

The page directory of the current process is an argument of `vmmDeepCopy`. What a
local variable holds before it is assigned is an argument too (`garbage`).
-/
import ShrekOS.Mem.PageDirectory

namespace ShrekOS

open Kit Kit.Cmd Vm

/-- `mem_section_t`. -/
structure MemSection where
  vAddrStart : UInt32
  len : UInt32
  pdeF : UInt32
  pteF : UInt32

namespace MemSection

/-- The last address of a section, `v_addr_start + (len - 1)`. -/
def high (ms : MemSection) : UInt32 := ms.vAddrStart + (ms.len - 1)

end MemSection

/-- The loop of `ms_get_bounding_addr`: the least and the greatest address of the
sections that are not empty. -/
def boundingAddr : List MemSection → UInt32 → UInt32 → UInt32 × UInt32
  | [], low, high => (low, high)
  | ms :: secs, low, high =>
      if ms.len = 0 then boundingAddr secs low high
      else boundingAddr secs (if ms.vAddrStart < low then ms.vAddrStart else low)
        (if ms.high > high then ms.high else high)

/-- `ms_get_bounding_addr`; it stores nothing when all sections are empty. -/
def msGetBoundingAddr (secs : List MemSection) : Option (UInt32 × UInt32) :=
  let (low, high) := boundingAddr secs 0xFFFFFFFF 0
  if low > high then none else some (low, high)

/-- `ms_get_bounding_section`: the code, and the first section that contains one of
the two addresses. -/
def msGetBoundingSection (secs : List MemSection) (addrLow addrHigh : UInt32) :
    ℤ × Option MemSection :=
  if secs = [] ∨ addrLow > addrHigh then (-1, none)
  else
    match secs.find? fun ms =>
      (ms.vAddrStart ≤ addrLow ∧ addrLow ≤ ms.high) ∨
        (ms.vAddrStart ≤ addrHigh ∧ addrHigh ≤ ms.high) with
    | some ms => (0, some ms)
    | none => (1, none)

/-- `PAGE_ALIGN_DOWN`. -/
def pageAlignDown (a : UInt32) : UInt32 := 4096 * (a / 4096)

/-- `PAGE_ALIGN_UP`. -/
def pageAlignUp (a : UInt32) : UInt32 := 4096 * ((a + 4096 - 1) / 4096)

/-! ### Mapping sections -/

/-- How `vmm_map_sections`, `vmm_new_user_page` and `vmm_deep_copy` get a frame for
`numPages` pages: allocate it, and have the page directory remember it. The two
codes are for a failure of each. -/
def withFrame (d numPages : ℕ) (noFrame noRecord : ℤ) (use : ℕ → VmM ℤ) : VmM ℤ := do
  match ← liftFm (fmAlloc numPages) with
  | .error _ => pure noFrame
  | .ok pAddr => do
      if (← pdAllocFrame d pAddr numPages) < 0 then do
        let _ ← liftFm (fmDealloc pAddr)
        pure noRecord
      else use pAddr

/-- Undo the allocation of a frame, in the order of `vmm_map_sections`. -/
def undoFrame (d pAddr : ℕ) : VmM Unit := do
  let _ ← liftFm (fmDealloc pAddr)
  let _ ← pdDeallocFrame d pAddr

/-- The loop of `vmm_map_sections` over the last `k` of `n` pages from `vAddr` on:
a negative code, or `0`. -/
def mapPages (d : ℕ) (secs : List MemSection) (vAddr : UInt32) (pAddr n : ℕ) : ℕ → VmM ℤ
  | 0 => pure 0
  | k + 1 => do
      let i := n - (k + 1)
      let curAddr := vAddr + UInt32.ofNat (pageSize * i)
      let (code, ms) := msGetBoundingSection secs curAddr (curAddr + 4095)
      if code < 0 then pure (-3) else do
      let (pteF, pdeF) := match ms with
        | none => (flagDefault, flagDefault)
        | some ms => (ms.pteF.toNat, ms.pdeF.toNat)
      let r ← pdCreateMapping d curAddr.toNat ((pAddr + pageSize * i) % 2 ^ 32) pteF pdeF
      if r < 0 then pure (-4) else
      mapPages d secs vAddr pAddr n k

/-- `vmm_map_sections`. -/
def vmmMapSections (d : ℕ) (secs : List MemSection) (garbage : UInt32 × UInt32) : VmM ℤ := do
  if secs = [] then pure (-1) else do
  let (low, high) := (msGetBoundingAddr secs).getD garbage
  let vAddrLow := pageAlignDown low
  let vAddrHigh := pageAlignUp high - 1
  let numPages := ((vAddrHigh - vAddrLow + 1) / 4096).toNat
  if numPages = 0 then pure 0 else
  withFrame d numPages (-2) (-3) fun pAddr => do
    if (← pdBeginMapping d) < 0 then do
      undoFrame d pAddr
      pure (-3)
    else do
    let r ← mapPages d secs vAddrLow pAddr numPages numPages
    if r < 0 then do
      pdAbortMapping d
      undoFrame d pAddr
      pure r
    else do
    pdCommitMapping d
    pure 0

/-! ### New user pages -/

/-- The loop of `vmm_new_user_page` that looks for pages that are mapped already:
whether one of the `k` pages from `vAddr` on is. -/
def anyMapped (d : ℕ) : ℕ → UInt32 → VmM Bool
  | 0, _ => pure false
  | k + 1, vAddr => do
      match ← pdGetMapping d vAddr.toNat with
      | .ok _ => pure true
      | .error _ => anyMapped d k (vAddr + 4096)

/-- The flags of page `i` of `n`: the first and the last one are marked. -/
def userFlags (i n : ℕ) : ℕ :=
  let f := if i = 0 then userWr ||| 2 ^ 9 else userWr
  if i = n - 1 then f ||| 2 ^ 10 else f

/-- The loop of `vmm_new_user_page` over the last `k` of `n` pages. -/
def mapUserPages (d : ℕ) (base : UInt32) (pAddr n : ℕ) : ℕ → VmM ℤ
  | 0 => pure 0
  | k + 1 => do
      let i := n - (k + 1)
      let r ← pdCreateMapping d (base + UInt32.ofNat (pageSize * i)).toNat
        ((pAddr + pageSize * i) % 2 ^ 32) (userFlags i n) userWr
      if r < 0 then pure (-4) else
      mapUserPages d base pAddr n k

/-- `vmm_new_user_page`. -/
def vmmNewUserPage (d : ℕ) (base numPages : UInt32) : VmM ℤ := do
  if numPages = 0 ∨ numPages > 0xFFFF then pure (-1) else do
  if base + numPages * 4096 - 1 < base then pure (-2) else do
  if (← anyMapped d numPages.toNat base) then pure (-3) else
  withFrame d numPages.toNat (-2) (-3) fun pAddr => do
    if (← pdBeginMapping d) < 0 then do
      undoFrame d pAddr
      pure (-4)
    else do
    let r ← mapUserPages d base pAddr numPages.toNat numPages.toNat
    if r < 0 then do
      pdAbortMapping d
      let _ ← pdDeallocFrame d pAddr
      let _ ← liftFm (fmDealloc pAddr)
      pure r
    else do
    pdCommitMapping d
    pure 0

/-! ### Removing user pages -/

/-- The loop of `vmm_remove_user_page`, with fuel: whether it went through to a page
marked as the last one. `prev` is the entry read last. -/
def removePages (d : ℕ) : ℕ → UInt32 → ℕ → VmM Bool
  | 0, _, _ => fault .outOfFuel
  | fuel + 1, vAddr, prev => do
      if vAddr - 4096 > vAddr then
        fault (.panic "Overflowed while deallocating stack space!!")
      else do
      let entry := match ← pdGetMapping d vAddr.toNat with
        | .ok v => v
        | .error _ => prev
      if (← pdRemoveMapping d vAddr.toNat) < 0 then pure false else
      if isUserEnd entry then pure true else
      removePages d fuel (vAddr + 4096) entry

/-- `vmm_remove_user_page`. -/
def vmmRemoveUserPage (d : ℕ) (base : UInt32) : VmM ℤ := do
  if base.toNat < userMemStart ∨ ¬ isPageAligned base.toNat then pure (-1) else do
  match ← pdGetMapping d base.toNat with
  | .error _ => pure (-2)
  | .ok v => do
      if ¬ isUserStart v then pure (-3) else do
      let pAddrBase := removeFlags v
      let _ ← pdBeginMapping d
      if !(← removePages d (2 ^ 20 + 1) base 0) then do
        pdAbortMapping d
        pure (-4)
      else do
      match ← pdDeallocFrame d pAddrBase with
      | none => do
          pdAbortMapping d
          pure (-5)
      | some frameSize => do
          if (← liftFm (fmDealloc pAddrBase)) < 0 then do
            let _ ← pdAllocFrame d pAddrBase frameSize
            pdAbortMapping d
            pure (-6)
          else do
          pdCommitMapping d
          pure 0

/-! ### Copying and clearing -/

/-- `vmm_deep_copy`, for a current process with page directory `src`. -/
def vmmDeepCopy (dest src : ℕ) (garbage : ℕ → ℕ) : VmM ℤ := do
  let numPages ← gets fun s => (s.pds src).numPages
  withFrame dest numPages (-3) (-4) fun pAddrStart => do
    if (← pdDeepCopy dest src pAddrStart garbage) < 0 then do
      undoFrame dest pAddrStart
      pure (-5)
    else pure 0

/-- The loop of `vmm_clear_user_space` over the frames. -/
def deallocFrames : List ℕ → VmM Unit
  | [] => pure ()
  | a :: frames => do
      let _ ← liftFm (fmDealloc a)
      deallocFrames frames

/-- `vmm_clear_user_space`. -/
def vmmClearUserSpace (d : ℕ) : VmM ℤ := do
  deallocFrames (← pdDeallocAllFrames d)
  pdClearUserSpace d
  pure 0

/-! ### Operations as steps -/

/-- A whole operation with its arguments. -/
inductive VmOp where
  | mapSections (d : ℕ) (secs : List MemSection) (garbage : UInt32 × UInt32)
  | newUserPage (d : ℕ) (base numPages : UInt32)
  | removeUserPage (d : ℕ) (base : UInt32)
  | deepCopy (dest src : ℕ) (garbage : ℕ → ℕ)
  | clearUserSpace (d : ℕ)

/-- An operation, whatever it returns. -/
def VmOp.perform : VmOp → VmM Unit
  | .mapSections d secs garbage => do let _ ← vmmMapSections d secs garbage
  | .newUserPage d base numPages => do let _ ← vmmNewUserPage d base numPages
  | .removeUserPage d base => do let _ ← vmmRemoveUserPage d base
  | .deepCopy dest src garbage => do let _ ← vmmDeepCopy dest src garbage
  | .clearUserSpace d => do let _ ← vmmClearUserSpace d

end ShrekOS
