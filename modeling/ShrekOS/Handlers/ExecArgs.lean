/-
`exec` and its arguments: the loop of `syscall_exec_c_handler` of
`handlers/life_cycle_handlers.c` that reads an argument vector, beside the loader that writes
one.

* `parseArgs`, `argString`, `execArgs`: the loop over the pointers, and the copies of the strings;
* `NullBehind`: the word behind the last pointer is 0, in terms of the strings and of what memory
  held before;
* `exec_recovers_iff`: **exactly when `exec` recovers the arguments that were loaded**;
* `ExecCall`, `syscallExec`: the handler, with the addresses that the loader stores to;
* `staysOnStack_iff`: **exactly when all of them are on the stack**.

The loops run on fuel; `none` stands for a page fault, or a loop that is still going.
-/
import ShrekOS.Handlers.UserStack

namespace ShrekOS

open Kit.Downward

/-! ### The argument vector -/

/-- The four bytes of a word are mapped. -/
def wordMapped (mapped : UInt32 → Bool) (a : UInt32) : Bool :=
  mapped a && mapped (a + 1) && mapped (a + 2) && mapped (a + 3)

/-- The loop over the pointers: these, or a negative code. `mapped` is `pd_get_mapping`. -/
def parseArgs (mapped : UInt32 → Bool) (m : UInt32 → UInt8) :
    ℕ → UInt32 → Option (Except ℤ (List UInt32))
  | 0, _ => none
  | fuel + 1, argp =>
      if ¬ mapped argp then some (.error (-8))
      else if ¬ wordMapped mapped argp then none
      else if wordAt m argp = 0 then some (.ok [])
      else if ¬ mapped (wordAt m argp) then some (.error (-7))
      else (parseArgs mapped m fuel (argp + 4)).map fun r => r.map (wordAt m argp :: ·)

/-- `strlen` and `memcpy` of one string. -/
def argString (mapped : UInt32 → Bool) (m : UInt32 → UInt8) : ℕ → UInt32 → Option (List UInt8)
  | 0, _ => none
  | fuel + 1, a =>
      if ¬ mapped a then none
      else if m a = 0 then some []
      else (argString mapped m fuel (a + 1)).map (m a :: ·)

/-- The loop that copies the strings. -/
def copyArgs (mapped : UInt32 → Bool) (m : UInt32 → UInt8) (fuel : ℕ) :
    List UInt32 → Option (List (List UInt8))
  | [] => some []
  | p :: ps =>
      (argString mapped m fuel p).bind fun arg =>
        (copyArgs mapped m fuel ps).map (arg :: ·)

/-- The arguments that `syscall_exec_c_handler` copies, or a negative code. -/
def execArgs (mapped : UInt32 → Bool) (m : UInt32 → UInt8) (fuel : ℕ) (argvec : UInt32) :
    Option (Except ℤ (List (List UInt8))) :=
  (parseArgs mapped m fuel argvec).bind fun r =>
    match r with
    | .error n => some (.error n)
    | .ok ptrs => (copyArgs mapped m fuel ptrs).map .ok

variable {mapped : UInt32 → Bool} {m : UInt32 → UInt8} {fuel : ℕ} {a argp : UInt32}
  {ptrs : List UInt32} {argv : List (List UInt8)} {arg : List UInt8}

lemma add_four (a : UInt32) (n : ℕ) :
    a + 4 + UInt32.ofNat (4 * n) = a + UInt32.ofNat (4 * (n + 1)) := by
  apply UInt32.toNat_inj.mp
  simp only [UInt32.toNat_add, UInt32.toNat_ofNat', UInt32.reduceToNat]
  omega

lemma add_one (a : UInt32) (n : ℕ) : a + 1 + UInt32.ofNat n = a + UInt32.ofNat (n + 1) := by
  apply UInt32.toNat_inj.mp
  simp only [UInt32.toNat_add, UInt32.toNat_ofNat', UInt32.toNat_one]
  omega

/-- **Where the loop ends** there is a 0 behind the pointers. -/
lemma parseArgs_null (h : parseArgs mapped m fuel argp = some (.ok ptrs)) :
    wordAt m (argp + UInt32.ofNat (4 * ptrs.length)) = 0 := by
  induction fuel generalizing argp ptrs with
  | zero => cases h
  | succ fuel ih =>
      rw [parseArgs] at h
      split_ifs at h with h1 h2 h3 h4
      · obtain rfl : [] = ptrs := Except.ok.inj (Option.some.inj h)
        change wordAt m (argp + 0) = 0
        rwa [UInt32.add_zero]
      · obtain ⟨r, hr, hcons⟩ := Option.map_eq_some_iff.mp h
        cases r with
        | error n => cases hcons
        | ok rest =>
            obtain rfl : wordAt m argp :: rest = ptrs := Except.ok.inj hcons
            rw [List.length_cons, ← add_four]
            exact ih hr
      · cases h
      · cases h

/-- **The loop reads** pointers with a 0 behind them. -/
lemma parseArgs_eq (hfuel : ptrs.length < fuel)
    (hptrs : ∀ i p, ptrs[i]? = some p → wordAt m (argp + UInt32.ofNat (4 * i)) = p ∧
      p ≠ 0 ∧ mapped p)
    (hmap : ∀ i ≤ ptrs.length, wordMapped mapped (argp + UInt32.ofNat (4 * i)))
    (hnull : wordAt m (argp + UInt32.ofNat (4 * ptrs.length)) = 0) :
    parseArgs mapped m fuel argp = some (.ok ptrs) := by
  induction ptrs generalizing fuel argp with
  | nil =>
      obtain ⟨fuel, rfl⟩ := Nat.exists_eq_succ_of_ne_zero (Nat.ne_zero_of_lt hfuel)
      have hword := hmap 0 le_rfl
      change wordMapped mapped (argp + 0) at hword
      change wordAt m (argp + 0) = 0 at hnull
      rw [UInt32.add_zero] at hword hnull
      have hfirst : mapped argp = true := by
        simp only [wordMapped, Bool.and_eq_true] at hword
        exact hword.1.1.1
      simp only [parseArgs, hfirst, hword, hnull, not_true_eq_false, if_false,
        if_true]
  | cons p ptrs ih =>
      obtain ⟨fuel, rfl⟩ := Nat.exists_eq_succ_of_ne_zero (Nat.ne_zero_of_lt hfuel)
      have hword := hmap 0 (Nat.zero_le _)
      obtain ⟨hp, hne, hpm⟩ := hptrs 0 p rfl
      change wordMapped mapped (argp + 0) at hword
      change wordAt m (argp + 0) = p at hp
      rw [UInt32.add_zero] at hword hp
      have hfirst : mapped argp = true := by
        simp only [wordMapped, Bool.and_eq_true] at hword
        exact hword.1.1.1
      have hrest := @ih fuel (argp + 4) (Nat.lt_of_succ_lt_succ hfuel)
        (fun i q hq => by rw [add_four]; exact hptrs (i + 1) q hq)
        (fun i hi => by rw [add_four]; exact hmap (i + 1) (Nat.succ_le_succ hi))
        (by rw [add_four]; exact hnull)
      simp only [parseArgs, hfirst, hword, hp, hne, hpm, not_true_eq_false,
        if_false, hrest]
      rfl

/-- **A string is copied** up to its 0. -/
lemma argString_eq (hfuel : arg.length < fuel) (harg : 0 ∉ arg)
    (hm : ∀ j v, (arg ++ [0])[j]? = some v →
      m (a + UInt32.ofNat j) = v ∧ mapped (a + UInt32.ofNat j)) :
    argString mapped m fuel a = some arg := by
  induction arg generalizing fuel a with
  | nil =>
      obtain ⟨fuel, rfl⟩ := Nat.exists_eq_succ_of_ne_zero (Nat.ne_zero_of_lt hfuel)
      obtain ⟨hv, hmap⟩ := hm 0 0 rfl
      change m (a + 0) = 0 at hv
      change mapped (a + 0) at hmap
      rw [UInt32.add_zero] at hv hmap
      simp only [argString, hv, hmap, not_true_eq_false, if_false, if_true]
  | cons c arg ih =>
      obtain ⟨fuel, rfl⟩ := Nat.exists_eq_succ_of_ne_zero (Nat.ne_zero_of_lt hfuel)
      obtain ⟨hv, hmap⟩ := hm 0 c rfl
      change m (a + 0) = c at hv
      change mapped (a + 0) at hmap
      rw [UInt32.add_zero] at hv hmap
      have hc : c ≠ 0 := fun h0 => harg (h0 ▸ List.mem_cons_self ..)
      have hrest := @ih fuel (a + 1) (Nat.lt_of_succ_lt_succ hfuel)
        (fun h0 => harg (List.mem_cons_of_mem _ h0))
        (fun j v hj => by rw [add_one]; exact hm (j + 1) v hj)
      simp only [argString, hv, hmap, hc, not_true_eq_false, if_false, hrest]
      rfl

/-- Each pointer is copied to one string. -/
lemma copyArgs_length (h : copyArgs mapped m fuel ptrs = some argv) :
    ptrs.length = argv.length := by
  induction ptrs generalizing argv with
  | nil =>
      obtain rfl : [] = argv := Option.some.inj h
      rfl
  | cons p ptrs ih =>
      obtain ⟨arg, -, h⟩ := Option.bind_eq_some_iff.mp h
      obtain ⟨rest, hrest, rfl⟩ := Option.map_eq_some_iff.mp h
      exact congrArg (· + 1) (ih hrest)

lemma copyArgs_eq (hlen : ptrs.length = argv.length)
    (hall : ∀ (i : ℕ) p arg, ptrs[i]? = some p → argv[i]? = some arg →
      argString mapped m fuel p = some arg) :
    copyArgs mapped m fuel ptrs = some argv := by
  induction ptrs generalizing argv with
  | nil =>
      rw [List.eq_nil_of_length_eq_zero hlen.symm]
      rfl
  | cons p ptrs ih =>
      cases argv with
      | nil => cases hlen
      | cons arg argv =>
          rw [copyArgs, hall 0 p arg rfl rfl, Option.bind_some, ih (Nat.succ.inj hlen)
            fun i q s hq hs => hall (i + 1) q s hq hs]
          rfl

lemma execArgs_eq (hparse : parseArgs mapped m fuel argp = some (.ok ptrs))
    (hcopy : copyArgs mapped m fuel ptrs = some argv) :
    execArgs mapped m fuel argp = some (.ok argv) := by
  rw [execArgs, hparse]
  exact congrArg (Option.map Except.ok) hcopy

/-- What is recovered has a 0 behind its pointers. -/
lemma execArgs_null (h : execArgs mapped m fuel argp = some (.ok argv)) :
    wordAt m (argp + UInt32.ofNat (4 * argv.length)) = 0 := by
  obtain ⟨r, hr, h⟩ := Option.bind_eq_some_iff.mp h
  cases r with
  | error n => cases h
  | ok ptrs =>
      obtain ⟨args, hargs, hok⟩ := Option.map_eq_some_iff.mp h
      obtain rfl : args = argv := Except.ok.inj hok
      rw [← copyArgs_length hargs]
      exact parseArgs_null hr

/-! ### Reading what was written -/

/-- **The condition**: the four bytes behind the last pointer are 0. The first ones are as memory
was before the loader, the others are those that the last strings begin with. -/
def NullBehind (m : UInt32 → UInt8) (argv : List (List UInt8)) : Prop :=
  ∀ k < 4, (if k ≤ (userStackTop.toNat - (argsBytes argv).length) % 4 then
      m (stackTopOf argv + UInt32.ofNat k)
    else (argsBytes argv).reverse.getD
      (k - 1 - (userStackTop.toNat - (argsBytes argv).length) % 4)
      (m (stackTopOf argv + UInt32.ofNat k))) = 0

instance (m : UInt32 → UInt8) (argv : List (List UInt8)) : Decidable (NullBehind m argv) :=
  Nat.decidableBallLT 4 _

/-- The pages of the stack are mapped. -/
def StackMapped (mapped : UInt32 → Bool) : Prop := ∀ a, userStackBottom ≤ a → mapped a

/-- The distance from the top of the stack, for a byte that lies `n + t` below it or higher. -/
lemma top_sub_toNat {b : UInt32} {n t k : ℕ} (hb : b.toNat = userStackTop.toNat - n - t)
    (hn : n + t ≤ userStackTop.toNat) (hk : k < 4) :
    (userStackTop - (b + UInt32.ofNat k)).toNat =
      if k ≤ n + t then n + t - k else 2 ^ 32 + n + t - k := by
  rw [top_toNat] at hb hn
  simp only [UInt32.toNat_sub, UInt32.toNat_add, UInt32.toNat_ofNat', top_toNat]
  split_ifs <;> omega

/-- A byte behind the last pointer. -/
lemma byte_behind (hfits : Fits argv) (m : UInt32 → UInt8) {k : ℕ} (hk : k < 4) :
    push m userStackTop (argsBytes argv) (stackTopOf argv + UInt32.ofNat k) =
      if k ≤ (userStackTop.toNat - (argsBytes argv).length) % 4 then
        m (stackTopOf argv + UInt32.ofNat k)
      else (argsBytes argv).reverse.getD
        (k - 1 - (userStackTop.toNat - (argsBytes argv).length) % 4)
        (m (stackTopOf argv + UInt32.ofNat k)) := by
  unfold Fits at hfits
  have hdist := top_sub_toNat (@stackTopOf_toNat argv (by omega)) (by omega) hk
  rw [top_toNat, bottom_toNat] at hfits
  rw [top_toNat] at hdist ⊢
  generalize (4294967280 - (argsBytes argv).length) % 4 = t at hfits hdist ⊢
  by_cases hbelow : k ≤ t
  · -- left by the rounding
    rw [if_pos (by omega)] at hdist
    rw [if_pos hbelow, push_of_le (by omega)]
  · rw [if_neg hbelow]
    by_cases hin : k ≤ (argsBytes argv).length + t
    · rw [if_pos hin] at hdist
      have hindex : (argsBytes argv).length + t - k =
          (argsBytes argv).length - 1 - (k - 1 - t) := by omega
      rw [List.getD_reverse _ (by omega), push, hdist, hindex]
    · -- above the top of the stack
      rw [if_neg hin] at hdist
      rw [push_of_le (by omega), List.getD_eq_default _ _ (by rw [List.length_reverse]; omega)]

/-- The word behind the last pointer. -/
lemma nullBehind_iff {s s' : UserMem} (hl : StackLoaded argv ptrs s s') (hfits : Fits argv) :
    wordAt s'.mem (stackTopOf argv) = 0 ↔ NullBehind s.mem argv := by
  have hround := @stackTopOf_toNat argv (by unfold Fits at hfits; omega)
  rw [top_toNat] at hround
  have hbyte : ∀ k < 4, s'.mem (stackTopOf argv + UInt32.ofNat k) =
      push s.mem userStackTop (argsBytes argv) (stackTopOf argv + UInt32.ofNat k) := by
    intro k hk
    refine hl.mem_above hfits ?_
    simp only [UInt32.toNat_add, UInt32.toNat_ofNat']
    omega
  rw [wordAt_eq_zero_iff_forall]
  exact forall₂_congr fun k hk => by rw [hbyte k hk, byte_behind hfits s.mem hk]

/-- **With a 0 behind the pointers**, the loop comes to them all and copies the strings. -/
lemma execArgs_loaded {s s' : UserMem} (hl : StackLoaded argv ptrs s s') (hfits : Fits argv)
    (hstr : ∀ arg ∈ argv, 0 ∉ arg) (hmapped : StackMapped mapped)
    (hnull : wordAt s'.mem (stackTopOf argv) = 0) :
    execArgs mapped s'.mem ((argsBytes argv).length + 1)
      (stackTopOf argv - UInt32.ofNat (4 * argv.length)) = some (.ok argv) := by
  have hround := @stackTopOf_toNat argv (by unfold Fits at hfits; omega)
  have hbottom : userStackBottom.toNat + 4 * (argv.length + 5) ≤ (stackTopOf argv).toNat := by
    unfold Fits at hfits
    omega
  rw [top_toNat] at hround
  have hmap : ∀ a : UInt32, userStackBottom.toNat ≤ a.toNat → mapped a := fun a ha =>
    hmapped a (UInt32.le_iff_toNat_le.mpr ha)
  have hend : stackTopOf argv - UInt32.ofNat (4 * argv.length) + UInt32.ofNat (4 * argv.length) =
      stackTopOf argv := UInt32.sub_add_cancel ..
  have hword : ∀ i ≤ ptrs.length, wordMapped mapped
      (stackTopOf argv - UInt32.ofNat (4 * argv.length) + UInt32.ofNat (4 * i)) := by
    intro i hi
    rw [hl.length] at hi
    have hplace : (stackTopOf argv - UInt32.ofNat (4 * argv.length) +
        UInt32.ofNat (4 * i)).toNat = (stackTopOf argv).toNat - 4 * (argv.length - i) := by
      simp only [UInt32.toNat_add, UInt32.toNat_sub, UInt32.toNat_ofNat']
      omega
    generalize stackTopOf argv - UInt32.ofNat (4 * argv.length) + UInt32.ofNat (4 * i) = b
      at hplace
    simp only [wordMapped, Bool.and_eq_true]
    have hnext : ∀ t : ℕ, t < 4 → mapped (b + UInt32.ofNat t) := fun t ht => hmap _ (by
      rw [UInt32.toNat_add, UInt32.toNat_ofNat']
      omega)
    exact ⟨⟨⟨hmap b (by omega), hnext 1 (by decide)⟩, hnext 2 (by decide)⟩, hnext 3 (by decide)⟩
  have hptr : ∀ i p, ptrs[i]? = some p →
      wordAt s'.mem (stackTopOf argv - UInt32.ofNat (4 * argv.length) + UInt32.ofNat (4 * i)) = p ∧
        p ≠ 0 ∧ mapped p := by
    intro i p hp
    obtain ⟨hi, -⟩ := List.getElem?_eq_some_iff.mp hp
    rw [hl.length] at hi
    have hget : argv[i]? = some argv[i] := List.getElem?_eq_getElem hi
    obtain rfl : _ = p := Option.some.inj ((hl.starts i _ hget).symm.trans hp)
    obtain ⟨-, hlow⟩ := argStart_toNat hfits hget
    refine ⟨hl.wordAt_ptr hfits hget, fun h0 => ?_, hmap _ (by omega)⟩
    rw [h0] at hlow
    exact absurd hlow (Nat.not_lt_zero _)
  have hparse := @parseArgs_eq _ _ ((argsBytes argv).length + 1) _ _
    (by rw [hl.length]; exact Nat.lt_succ_of_le (length_le_argsBytes argv)) hptr hword
    (by rw [hl.length, hend]; exact hnull)
  refine execArgs_eq hparse (copyArgs_eq hl.length fun i p arg hp harg => ?_)
  obtain rfl : _ = p := Option.some.inj ((hl.starts i arg harg).symm.trans hp)
  obtain ⟨hstart, hlow⟩ := argStart_toNat hfits harg
  have hsize := argOffset_le argv (i + 1)
  rw [argOffset_succ harg] at hsize
  refine argString_eq (by omega) (hstr arg (List.mem_of_getElem? harg)) fun j v hv =>
    ⟨hl.mem_string hfits harg hv, hmap _ ?_⟩
  have hj := (List.getElem?_eq_some_iff.mp hv).1
  rw [List.length_append, List.length_singleton] at hj
  rw [top_toNat] at hstart
  rw [UInt32.toNat_add, UInt32.toNat_ofNat']
  omega

/-- **When `exec` undoes the loader**: a program that passes on the `argv` pointer it got has its
arguments recovered exactly if the word behind the last pointer is 0, which nothing stores. -/
theorem exec_recovers_iff (hfits : Fits argv) (hstr : ∀ arg ∈ argv, 0 ∉ arg)
    (hmapped : StackMapped mapped) {s s' : UserMem} {sp : UInt32}
    (hrun : loadUserStack true argv s = .ok (sp, s')) :
    (∃ fuel, execArgs mapped s'.mem fuel (wordAt s'.mem (sp + 8)) = some (.ok argv)) ↔
      NullBehind s.mem argv := by
  obtain ⟨ptrs, s₁, hrun₁, hl⟩ := loadUserStack_spec argv s
  obtain ⟨rfl, rfl⟩ := Prod.mk.inj (Except.ok.inj (hrun₁.symm.trans hrun))
  have hargv := hl.wordAt_five hfits (i := 2) (by decide) rfl
  change wordAt s₁.mem (_ + 8) = _ at hargv
  rw [hargv, ← nullBehind_iff hl hfits]
  constructor
  · rintro ⟨fuel, hexec⟩
    have hword := execArgs_null hexec
    rwa [UInt32.sub_add_cancel] at hword
  · exact fun hnull => ⟨_, execArgs_loaded hl hfits hstr hmapped hnull⟩

/-- An argument of four characters, in memory that was cleared. -/
theorem exec_recovers_abcd :
    ∃ sp s', loadUserStack true [[97, 98, 99, 100]] ⟨fun _ => 0, []⟩ = .ok (sp, s') ∧
      ∃ fuel, execArgs (fun _ => true) s'.mem fuel (wordAt s'.mem (sp + 8)) =
        some (.ok [[97, 98, 99, 100]]) := by
  obtain ⟨ptrs, s', hrun, -⟩ := loadUserStack_spec [[97, 98, 99, 100]] ⟨fun _ => 0, []⟩
  exact ⟨_, s', hrun, (exec_recovers_iff (by decide) (by decide) (fun _ _ => rfl) hrun).mpr
    (by decide +kernel)⟩

/-- **An argument of one character** begins in the word behind its pointer. -/
theorem not_exec_recovers_a :
    ¬ ∀ sp s', loadUserStack true [[97]] ⟨fun _ => 0, []⟩ = .ok (sp, s') →
      ∃ fuel, execArgs (fun _ => true) s'.mem fuel (wordAt s'.mem (sp + 8)) =
        some (.ok [[97]]) := by
  intro hall
  obtain ⟨ptrs, s', hrun, hl⟩ := loadUserStack_spec [[97]] ⟨fun _ => 0, []⟩
  obtain ⟨fuel, hexec⟩ := hall _ s' hrun
  have hargv := hl.wordAt_five (by decide) (i := 2) (by decide) rfl
  change wordAt s'.mem (_ + 8) = _ at hargv
  have hword := execArgs_null hexec
  rw [hargv, UInt32.sub_add_cancel] at hword
  exact absurd ((nullBehind_iff hl (by decide)).mp hword) (by decide +kernel)

/-! ### The handler -/

/-- A call of `exec`, with what it finds and what the functions it calls answer: `mapped` and
`mem` are the old address space, `copied` says whether `malloc` gives memory for all copies,
`cleared` is the answer of `vmm_clear_user_space`, `sections` says whether `pcb_load_prog` comes
to `load_user_stack`, and `newMem` is the memory then. -/
structure ExecCall where
  named : Bool
  argvec : UInt32
  elfExists : Bool
  hasTcb : Bool
  hasPcb : Bool
  numThreads : ℕ
  mapped : UInt32 → Bool
  mem : UInt32 → UInt8
  copied : Bool
  cleared : ℤ
  sections : Bool
  stackMapped : Bool
  newMem : UInt32 → UInt8

/-- How a call of `exec` ends: with a negative code before or after the address space was cleared,
in `panic`, in a page fault or never, or in the new program. -/
inductive ExecEnd where
  | refused (n : ℤ)
  | failed (n : ℤ)
  | panicked
  | lost
  | started (sp : UInt32)

/-- `syscall_exec_c_handler`, with the addresses that the loader stores to. -/
def syscallExec (c : ExecCall) (fuel : ℕ) : ExecEnd × List UInt32 :=
  if ¬ c.named ∨ c.argvec = 0 then (.refused (-1), [])
  else if ¬ c.elfExists then (.refused (-2), [])
  else if ¬ c.hasTcb then (.panicked, [])
  else if ¬ c.hasPcb then (.refused (-5), [])
  else if 1 < c.numThreads then (.refused (-3), [])
  else match execArgs c.mapped c.mem fuel c.argvec with
    | none => (.lost, [])
    | some (.error n) => (.refused n, [])
    | some (.ok argv) =>
        if ¬ c.copied then (.lost, [])
        else if c.cleared < 0 then (.failed (-6), [])
        else if ¬ c.sections then (.panicked, [])
        else match loadUserStack c.stackMapped argv ⟨c.newMem, []⟩ with
          | .error _ => (.panicked, [])
          | .ok (sp, s) => (.started sp, s.stored)

/-- An address between the ends of the stack. -/
def OnStack (a : UInt32) : Prop := userStackBottom ≤ a ∧ a ≤ userStackTop

/-- A call is refused before the old address space is cleared, or stores to the stack only. -/
def StaysOnStack (c : ExecCall) (fuel : ℕ) : Prop :=
  (∃ n < 0, (syscallExec c fuel).1 = .refused n) ∨ ∀ a ∈ (syscallExec c fuel).2, OnStack a

/-- All checks that come before the loader are passed, other than those of the arguments. -/
def ExecCall.ComesToLoad (c : ExecCall) : Prop :=
  c.named ∧ c.argvec ≠ 0 ∧ c.elfExists ∧ c.hasTcb ∧ c.hasPcb ∧ c.numThreads ≤ 1 ∧ c.copied ∧
    0 ≤ c.cleared ∧ c.sections ∧ c.stackMapped

/-- **The stores of the loader** are on the stack exactly when the arguments fit. -/
lemma onStack_iff_fits {s' : UserMem} {m : UInt32 → UInt8} (hl : StackLoaded argv ptrs ⟨m, []⟩ s') :
    (∀ a ∈ s'.stored, OnStack a) ↔ Fits argv := by
  have hstored : ∀ a, a ∈ s'.stored ↔ a ∈ below userStackTop (argsBytes argv).length ∨
      a ∈ below (stackTopOf argv - 1) (4 * (argv.length + 5)) := by
    intro a
    rw [hl.stored]
    exact or_iff_right List.not_mem_nil
  have hstack : ∀ a, OnStack a ↔ 4294959104 ≤ a.toNat ∧ a.toNat ≤ 4294967280 := fun a =>
    and_congr UInt32.le_iff_toNat_le UInt32.le_iff_toNat_le
  have hargc := length_le_argsBytes argv
  simp only [hstored, hstack]
  rw [Fits, top_toNat, bottom_toNat]
  constructor
  · intro hall
    -- the byte below the bottom is stored to when the strings are too long
    have hN : (argsBytes argv).length ≤ 8177 := by
      by_contra hlong
      have hlow := hall (userStackTop - UInt32.ofNat 8177)
        (.inl (List.mem_map.mpr ⟨8177, List.mem_range.mpr (by omega), rfl⟩))
      rw [toNat_sub_ofNat (by rw [top_toNat]; omega), top_toNat] at hlow
      omega
    have hround := @stackTopOf_toNat argv (by rw [top_toNat]; omega)
    rw [top_toNat] at hround
    have hlast := hall (stackTopOf argv - 1 - UInt32.ofNat (4 * (argv.length + 5) - 1))
      (.inr (List.mem_map.mpr ⟨_, List.mem_range.mpr (by omega), rfl⟩))
    simp only [UInt32.toNat_sub, UInt32.toNat_one, UInt32.toNat_ofNat'] at hlast
    omega
  · intro hfits a ha
    have hround := @stackTopOf_toNat argv (by rw [top_toNat]; omega)
    rw [top_toNat] at hround
    rcases ha with ha | ha
    · obtain ⟨j, hj, rfl⟩ := List.mem_map.mp ha
      rw [List.mem_range] at hj
      rw [toNat_sub_ofNat (by rw [top_toNat]; omega), top_toNat]
      omega
    · obtain ⟨j, hj, rfl⟩ := List.mem_map.mp ha
      rw [List.mem_range] at hj
      simp only [UInt32.toNat_sub, UInt32.toNat_one, UInt32.toNat_ofNat']
      omega

/-- What the handler stores, if it comes to the loader. -/
lemma syscallExec_stored (c : ExecCall) (fuel : ℕ) :
    (∃ argv s' sp, c.ComesToLoad ∧ execArgs c.mapped c.mem fuel c.argvec = some (.ok argv) ∧
        loadUserStack true argv ⟨c.newMem, []⟩ = .ok (sp, s') ∧
        syscallExec c fuel = (.started sp, s'.stored)) ∨
      (syscallExec c fuel).2 = [] ∧
        ¬ (c.ComesToLoad ∧ ∃ argv, execArgs c.mapped c.mem fuel c.argvec = some (.ok argv)) := by
  unfold syscallExec ExecCall.ComesToLoad
  by_cases h1 : ¬ c.named ∨ c.argvec = 0
  · rw [if_pos h1]
    exact .inr ⟨rfl, fun h => h1.elim (fun hn => hn h.1.1) h.1.2.1⟩
  rw [if_neg h1]
  by_cases h2 : c.elfExists
  swap
  · rw [if_pos h2]
    exact .inr ⟨rfl, fun h => h2 h.1.2.2.1⟩
  rw [if_neg (not_not.mpr h2)]
  by_cases h3 : c.hasTcb
  swap
  · rw [if_pos h3]
    exact .inr ⟨rfl, fun h => h3 h.1.2.2.2.1⟩
  rw [if_neg (not_not.mpr h3)]
  by_cases h4 : c.hasPcb
  swap
  · rw [if_pos h4]
    exact .inr ⟨rfl, fun h => h4 h.1.2.2.2.2.1⟩
  rw [if_neg (not_not.mpr h4)]
  by_cases h5 : 1 < c.numThreads
  · rw [if_pos h5]
    exact .inr ⟨rfl, fun h => absurd h.1.2.2.2.2.2.1 (not_le.mpr h5)⟩
  rw [if_neg h5]
  rcases hargs : execArgs c.mapped c.mem fuel c.argvec with _ | ⟨n | argv⟩
  · exact .inr ⟨rfl, fun h => by simp at h⟩
  · exact .inr ⟨rfl, fun h => by simp at h⟩
  simp only
  by_cases h6 : c.copied
  swap
  · rw [if_pos h6]
    exact .inr ⟨rfl, fun h => h6 h.1.2.2.2.2.2.2.1⟩
  rw [if_neg (not_not.mpr h6)]
  by_cases h7 : c.cleared < 0
  · rw [if_pos h7]
    exact .inr ⟨rfl, fun h => absurd h.1.2.2.2.2.2.2.2.1 (not_le.mpr h7)⟩
  rw [if_neg h7]
  by_cases h8 : c.sections
  swap
  · rw [if_pos h8]
    exact .inr ⟨rfl, fun h => h8 h.1.2.2.2.2.2.2.2.2.1⟩
  rw [if_neg (not_not.mpr h8)]
  by_cases h9 : c.stackMapped
  · obtain ⟨ptrs, s', hrun, -⟩ := loadUserStack_spec argv ⟨c.newMem, []⟩
    rw [h9, hrun]
    exact .inl ⟨argv, s', _, ⟨not_not.mp (not_or.mp h1).1, (not_or.mp h1).2, h2, h3, h4,
      not_lt.mp h5, h6, not_lt.mp h7, h8, rfl⟩, rfl, hrun, rfl⟩
  · rw [loadUserStack, if_pos h9]
    exact .inr ⟨rfl, fun h => h9 h.1.2.2.2.2.2.2.2.2.2⟩

/-- Arguments that come to the loader. -/
lemma staysOnStack_iff_fits {c : ExecCall} (hcomes : c.ComesToLoad)
    (hargs : execArgs c.mapped c.mem fuel c.argvec = some (.ok argv)) :
    StaysOnStack c fuel ↔ Fits argv := by
  rcases syscallExec_stored c fuel with ⟨argv', s', sp, -, hargs', hrun, hexec⟩ | ⟨-, hnot⟩
  · obtain rfl : argv = argv' := Except.ok.inj (Option.some.inj (hargs.symm.trans hargs'))
    obtain ⟨ptrs, s₁, hrun₁, hl⟩ := loadUserStack_spec argv ⟨c.newMem, []⟩
    obtain ⟨-, rfl⟩ := Prod.mk.inj (Except.ok.inj (hrun₁.symm.trans hrun))
    rw [StaysOnStack, hexec, ← onStack_iff_fits hl]
    refine or_iff_right ?_
    rintro ⟨n, -, hend⟩
    cases hend
  · exact absurd ⟨hcomes, argv, hargs⟩ hnot

/-- **When `exec` stays on the new stack**: exactly when arguments that come to the loader fit,
which nothing checks. -/
theorem staysOnStack_iff (c : ExecCall) (fuel : ℕ) : StaysOnStack c fuel ↔
    (c.ComesToLoad → ∀ argv, execArgs c.mapped c.mem fuel c.argvec = some (.ok argv) →
      Fits argv) := by
  rcases syscallExec_stored c fuel with ⟨argv, s', sp, hcomes, hargs, -, -⟩ | ⟨hnil, hnot⟩
  · rw [staysOnStack_iff_fits hcomes hargs, hargs]
    refine ⟨fun hfits _ argv' h => ?_, fun h => h hcomes argv rfl⟩
    obtain rfl : argv = argv' := Except.ok.inj (Option.some.inj h)
    exact hfits
  · refine iff_of_true (.inr ?_) fun hcomes argv hargs => absurd ⟨hcomes, argv, hargs⟩ hnot
    rw [hnil]
    exact fun a ha => absurd ha List.not_mem_nil

/-- A call with one argument, of 8200 characters at 0x1001000. -/
def longArgument : ExecCall where
  named := true
  argvec := 0x1000000
  elfExists := true
  hasTcb := true
  hasPcb := true
  numThreads := 1
  mapped := fun _ => true
  mem := fun a => if a = 0x1000001 then 0x10 else if a = 0x1000003 then 1
    else if (a - 0x1001000).toNat < 8200 then 97 else 0
  copied := true
  cleared := 0
  sections := true
  stackMapped := true
  newMem := fun _ => 0

lemma execArgs_longArgument :
    execArgs longArgument.mapped longArgument.mem 8201 longArgument.argvec =
      some (.ok [List.replicate 8200 97]) := by
  have hparse : parseArgs longArgument.mapped longArgument.mem 8201 longArgument.argvec =
      some (.ok [0x1001000]) := by
    refine parseArgs_eq (by decide) ?_ (fun _ _ => rfl) (by decide)
    intro i p hp
    cases i with
    | zero =>
        obtain rfl : 0x1001000 = p := Option.some.inj hp
        decide
    | succ i => cases hp
  have hstring : argString longArgument.mapped longArgument.mem 8201 0x1001000 =
      some (List.replicate 8200 97) := by
    refine argString_eq (by rw [List.length_replicate]; decide)
      (fun h => absurd (List.eq_of_mem_replicate h) (by decide)) fun j v hv => ⟨?_, rfl⟩
    have hj := (List.getElem?_eq_some_iff.mp hv).1
    rw [List.length_append, List.length_replicate, List.length_singleton] at hj
    have haddr : (0x1001000 + UInt32.ofNat j).toNat = 0x1001000 + j := by
      simp only [UInt32.toNat_add, UInt32.toNat_ofNat', UInt32.reduceToNat]
      omega
    have hplace : (0x1001000 + UInt32.ofNat j - 0x1001000).toNat = j := by
      simp only [UInt32.toNat_sub, haddr, UInt32.reduceToNat]
      omega
    have hne : ∀ b : UInt32, b.toNat < 0x1001000 → 0x1001000 + UInt32.ofNat j ≠ b := by
      rintro b hb rfl
      omega
    simp only [longArgument, hplace, if_neg (hne 0x1000001 (by decide)),
      if_neg (hne 0x1000003 (by decide))]
    by_cases hin : j < 8200
    · rw [List.getElem?_append_left (by rwa [List.length_replicate]),
        List.getElem?_replicate_of_lt hin] at hv
      rw [if_pos hin]
      exact Option.some.inj hv
    · obtain rfl : j = 8200 := by omega
      rw [List.getElem?_append_right (by rw [List.length_replicate]), List.length_replicate] at hv
      rw [if_neg hin]
      exact Option.some.inj hv
  refine execArgs_eq hparse ?_
  rw [copyArgs, hstring]
  rfl

/-- **An argument of 8200 characters** runs over the bottom of the stack. -/
theorem not_staysOnStack_long : ¬ StaysOnStack longArgument 8201 := by
  have hcomes : longArgument.ComesToLoad := by
    unfold ExecCall.ComesToLoad
    decide
  rw [staysOnStack_iff_fits hcomes execArgs_longArgument]
  intro hfits
  rw [Fits, top_toNat, bottom_toNat, argsBytes, List.flatMap_singleton, length_argBytes,
    List.length_replicate] at hfits
  omega

end ShrekOS
