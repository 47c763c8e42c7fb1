/-
The stack of a new program: `load_user_stack` of `loader/loader.c`.

* `UserMem`: the memory, with the addresses that are stored to;
* `fillBack`, `fillArgs`, `fillPtrs`, `loadUserStack`: the loops of the loader, and the loader;
* `argsBytes`, `stackTopOf`: the strings as they lie below the top of the stack, and the address
  rounded down below them;
* `Fits`: the strings, the pointers and the five words fit on the stack;
* `loadUserStack_spec`: **what the loader leaves in memory**, as two descending runs of bytes;
* `loadUserStack_argsLoaded`: **the arguments arrive intact**.

The stack grows down from `USER_STACK_TOP`, where the 0 behind the first string goes.
-/
import ShrekOS.Lib.Downward

namespace ShrekOS

open Kit.Downward

/-- `USER_STACK_TOP`. -/
def userStackTop : UInt32 := 0xfffffff0

/-- `USER_STACK_BOTTOM`. -/
def userStackBottom : UInt32 := 0xffffe000

/-! ### The loader -/

/-- The memory, and the addresses of the bytes stored to so far. -/
structure UserMem where
  mem : UInt32 → UInt8
  stored : List UInt32

namespace UserMem

/-- A byte is stored. -/
def storeByte (s : UserMem) (a : UInt32) (v : UInt8) : UserMem :=
  ⟨Function.update s.mem a v, s.stored ++ [a]⟩

/-- The four bytes of a word are stored. -/
def storeWord (s : UserMem) (a w : UInt32) : UserMem :=
  ⟨push s.mem (a + 3) (bytesDown w), s.stored ++ below (a + 3) 4⟩

end UserMem

/-- The loop over a string, whose characters are given from the last one on. -/
def fillBack : List UInt8 → UInt32 → UserMem → UInt32 × UserMem
  | [], esp, s => (esp, s)
  | c :: cs, esp, s => fillBack cs (esp - 1) (s.storeByte (esp - 1) c)

/-- The loop over the strings: the addresses of the copies, and `esp` after them. -/
def fillArgs : List (List UInt8) → UInt32 → UserMem → List UInt32 × UInt32 × UserMem
  | [], esp, s => ([], esp, s)
  | arg :: args, esp, s =>
      let r := fillBack arg.reverse esp (s.storeByte esp 0)
      let r' := fillArgs args (r.1 - 1) r.2
      (r.1 :: r'.1, r'.2)

/-- The loop over the addresses, which are given from the last one on. -/
def fillPtrs : List UInt32 → UInt32 → UserMem → UInt32 × UserMem
  | [], stackTop, s => (stackTop, s)
  | p :: ps, stackTop, s => fillPtrs ps (stackTop - 4) (s.storeWord stackTop p)

/-- `load_user_stack`: what becomes of `pcb->stack_top` and of the memory, or a negative code.
`mapped` says whether `vmm_map_sections` succeeds. -/
def loadUserStack (mapped : Bool) (argv : List (List UInt8)) (s : UserMem) :
    Except ℤ (UInt32 × UserMem) :=
  if ¬ mapped then .error (-2) else
  let (newArgv, esp, s) := fillArgs argv userStackTop s
  let stackTop := esp - esp % 4
  let (stackTop, s) := fillPtrs newArgv.reverse (stackTop - 4) s
  let finalArgv := stackTop + 4
  let s := s.storeWord (stackTop - 16) 0
  let s := s.storeWord (stackTop - 12) (UInt32.ofNat argv.length)
  let s := s.storeWord (stackTop - 8) finalArgv
  let s := s.storeWord (stackTop - 4) userStackTop
  let s := s.storeWord stackTop userStackBottom
  .ok (stackTop - 16, s)

/-! ### The layout -/

/-- The bytes of a string from its terminating 0 down. -/
def argBytes (arg : List UInt8) : List UInt8 := 0 :: arg.reverse

/-- The bytes of all strings, from the top of the stack down. -/
def argsBytes (argv : List (List UInt8)) : List UInt8 := argv.flatMap argBytes

/-- The address below the strings, rounded down, as the loader computes it. -/
def stackTopOf (argv : List (List UInt8)) : UInt32 :=
  userStackTop - UInt32.ofNat (argsBytes argv).length -
    (userStackTop - UInt32.ofNat (argsBytes argv).length) % 4

/-- The strings, the pointers and the five words fit between the ends of the stack. -/
def Fits (argv : List (List UInt8)) : Prop :=
  userStackBottom.toNat + 4 * (argv.length + 5) + (argsBytes argv).length +
    (userStackTop.toNat - (argsBytes argv).length) % 4 ≤ userStackTop.toNat

instance (argv : List (List UInt8)) : Decidable (Fits argv) := Nat.decLe _ _

variable {argv : List (List UInt8)} {arg : List UInt8} {s : UserMem} {esp a : UInt32} {i j : ℕ}

lemma length_argBytes (arg : List UInt8) : (argBytes arg).length = arg.length + 1 := by
  simp [argBytes]

lemma argBytes_eq (arg : List UInt8) : argBytes arg = (arg ++ [0]).reverse := by
  simp [argBytes]

/-- Each string takes a byte at least. -/
lemma length_le_argsBytes (argv : List (List UInt8)) : argv.length ≤ (argsBytes argv).length := by
  induction argv with
  | nil => exact le_rfl
  | cons arg argv ih =>
      have hlen : (argsBytes (arg :: argv)).length = arg.length + 1 + (argsBytes argv).length := by
        rw [argsBytes, List.flatMap_cons, List.length_append, length_argBytes]
        rfl
      rw [List.length_cons, hlen]
      omega

/-- Where a string starts in the descending run. -/
def argOffset (argv : List (List UInt8)) (i : ℕ) : ℕ := (argsBytes (argv.take i)).length

/-- The strings from `i` on lie below the ones before it. -/
lemma argOffset_succ (h : argv[i]? = some arg) :
    argOffset argv (i + 1) = argOffset argv i + (arg.length + 1) := by
  rw [argOffset, List.take_add_one, h, Option.toList_some, argsBytes, List.flatMap_append,
    List.flatMap_singleton, List.length_append, length_argBytes]
  rfl

lemma argOffset_mono {k : ℕ} (h : i ≤ k) : argOffset argv i ≤ argOffset argv k := by
  obtain ⟨rest, hrest⟩ : argv.take i <+: argv.take k := List.take_prefix_take_left h
  rw [argOffset, argOffset, ← hrest, argsBytes, argsBytes, List.flatMap_append, List.length_append]
  omega

lemma argOffset_le (argv : List (List UInt8)) (i : ℕ) :
    argOffset argv i ≤ (argsBytes argv).length := by
  rw [argOffset]
  conv_rhs => rw [← List.take_append_drop i argv, argsBytes, List.flatMap_append,
    List.length_append]
  exact Nat.le_add_right _ _

/-- A byte of a string in the descending run. -/
lemma getElem?_argsBytes (h : argv[i]? = some arg) (hj : j ≤ arg.length) :
    (argsBytes argv)[argOffset argv i + (arg.length - j)]? = (arg ++ [0])[j]? := by
  have hpiece := getElem?_flatMap argBytes h (j := arg.length - j) (by
    rw [length_argBytes]
    omega)
  rw [argsBytes, argOffset, argsBytes, hpiece, argBytes_eq,
    List.getElem?_reverse (by rw [List.length_append, List.length_singleton]; omega),
    List.length_append, List.length_singleton]
  congr 1
  omega

/-! ### What the loops do -/

lemma below_one_add (esp : UInt32) (n : ℕ) : below esp (1 + n) = esp :: below (esp - 1) n := by
  have hone : below esp 1 = [esp] := by simp [below]
  rw [below_add, hone]
  rfl

/-- **The loop over a string**: the addresses, and what is there. -/
lemma fillBack_spec (cs : List UInt8) (esp : UInt32) (s : UserMem) :
    (fillBack cs esp s).1 = esp - UInt32.ofNat cs.length ∧
      (fillBack cs esp s).2.stored = s.stored ++ below (esp - 1) cs.length ∧
      (cs.length ≤ 2 ^ 32 → (fillBack cs esp s).2.mem = push s.mem (esp - 1) cs) := by
  induction cs generalizing esp s with
  | nil => exact ⟨(UInt32.sub_zero esp).symm, (List.append_nil _).symm, fun _ => rfl⟩
  | cons c cs ih =>
      obtain ⟨hesp, hstored, hmem⟩ := ih (esp - 1) (s.storeByte (esp - 1) c)
      refine ⟨?_, ?_, fun hlen => ?_⟩
      · rw [fillBack, hesp, List.length_cons, Nat.add_comm, sub_ofNat_add]
        rfl
      · rw [fillBack, hstored, List.length_cons, Nat.add_comm, below_one_add]
        exact List.append_assoc _ _ _
      · rw [List.length_cons] at hlen
        rw [fillBack, hmem (by omega)]
        exact push_cons c (by omega)

/-- **One string with its 0.** -/
lemma fillArg_spec (arg : List UInt8) (esp : UInt32) (s : UserMem) :
    (fillBack arg.reverse esp (s.storeByte esp 0)).1 = esp - UInt32.ofNat arg.length ∧
      (fillBack arg.reverse esp (s.storeByte esp 0)).2.stored =
        s.stored ++ below esp (argBytes arg).length ∧
      ((argBytes arg).length ≤ 2 ^ 32 →
        (fillBack arg.reverse esp (s.storeByte esp 0)).2.mem = push s.mem esp (argBytes arg)) := by
  obtain ⟨hesp, hstored, hmem⟩ := fillBack_spec arg.reverse esp (s.storeByte esp 0)
  rw [List.length_reverse] at hesp hstored hmem
  rw [length_argBytes]
  refine ⟨hesp, ?_, fun hlen => ?_⟩
  · rw [hstored, Nat.add_comm, below_one_add]
    exact List.append_assoc _ _ _
  · rw [hmem (by omega)]
    exact push_cons 0 (by rw [List.length_reverse]; omega)

/-- **The loop over the strings.** -/
lemma fillArgs_spec (argv : List (List UInt8)) (esp : UInt32) (s : UserMem) :
    (fillArgs argv esp s).1.length = argv.length ∧
      (∀ i arg, argv[i]? = some arg → (fillArgs argv esp s).1[i]? =
        some (esp - UInt32.ofNat (argOffset argv i + arg.length))) ∧
      (fillArgs argv esp s).2.1 = esp - UInt32.ofNat (argsBytes argv).length ∧
      (fillArgs argv esp s).2.2.stored = s.stored ++ below esp (argsBytes argv).length ∧
      ((argsBytes argv).length ≤ 2 ^ 32 →
        (fillArgs argv esp s).2.2.mem = push s.mem esp (argsBytes argv)) := by
  induction argv generalizing esp s with
  | nil => exact ⟨rfl, nofun, (UInt32.sub_zero esp).symm, (List.append_nil _).symm, fun _ => rfl⟩
  | cons arg argv ih =>
      obtain ⟨hesp, hstored, hmem⟩ := fillArg_spec arg esp s
      rw [fillArgs]
      generalize fillBack arg.reverse esp (s.storeByte esp 0) = r at hesp hstored hmem
      obtain ⟨hlen', hptrs', hesp', hstored', hmem'⟩ := ih (r.1 - 1) r.2
      have hsize : argsBytes (arg :: argv) = argBytes arg ++ argsBytes argv := List.flatMap_cons ..
      have hnext : r.1 - 1 = esp - UInt32.ofNat (argBytes arg).length := by
        rw [hesp, length_argBytes, sub_ofNat_add]
        rfl
      rw [hnext] at hptrs' hesp' hstored' hmem'
      refine ⟨congrArg (· + 1) hlen', ?_, ?_, ?_, fun hle => ?_⟩
      · intro i arg' hi
        cases i with
        | zero =>
            obtain rfl : arg = arg' := Option.some.inj hi
            rw [List.getElem?_cons_zero, hesp]
            exact congrArg (fun n => some (esp - UInt32.ofNat n)) (Nat.zero_add _).symm
        | succ i =>
            have hoff : argOffset (arg :: argv) (i + 1) =
                (argBytes arg).length + argOffset argv i := by
              rw [argOffset, List.take_succ_cons, argsBytes, List.flatMap_cons,
                List.length_append]
              rfl
            rw [List.getElem?_cons_succ, hnext, hptrs' i arg' hi, hoff, Nat.add_assoc,
              sub_ofNat_add esp (argBytes arg).length]
      · rw [hnext, hesp', hsize, List.length_append, sub_ofNat_add]
      · rw [hnext, hstored', hstored, hsize, List.length_append, below_add, List.append_assoc]
      · rw [hsize, List.length_append] at hle
        rw [hnext, hmem' (by omega), hmem (by omega), hsize]
        exact push_append hle

/-- **The loop over the addresses.** -/
lemma fillPtrs_spec (ps : List UInt32) (top : UInt32) (s : UserMem) :
    (fillPtrs ps (top - 4) s).1 = top - 4 - UInt32.ofNat (4 * ps.length) ∧
      (fillPtrs ps (top - 4) s).2.stored = s.stored ++ below (top - 1) (4 * ps.length) ∧
      (4 * ps.length ≤ 2 ^ 32 →
        (fillPtrs ps (top - 4) s).2.mem = push s.mem (top - 1) (ps.flatMap bytesDown)) := by
  induction ps generalizing top s with
  | nil => exact ⟨(UInt32.sub_zero _).symm, (List.append_nil _).symm, fun _ => rfl⟩
  | cons p ps ih =>
      obtain ⟨htop, hstored, hmem⟩ := ih (top - 4) (s.storeWord (top - 4) p)
      have hup : top - 4 + 3 = top - 1 := by
        apply UInt32.toNat_inj.mp
        have hlt := top.toNat_lt
        simp only [UInt32.toNat_sub, UInt32.toNat_add, UInt32.toNat_one, UInt32.reduceToNat]
        omega
      have hfour : top - 4 - 1 = top - 1 - UInt32.ofNat 4 := by
        apply UInt32.toNat_inj.mp
        simp only [UInt32.toNat_sub, UInt32.toNat_one, UInt32.reduceToNat, UInt32.reduceOfNat]
        omega
      rw [fillPtrs, List.length_cons, Nat.mul_succ, Nat.add_comm (4 * ps.length)]
      refine ⟨?_, ?_, fun hle => ?_⟩
      · rw [htop, sub_ofNat_add]
        rfl
      · rw [hstored, below_add, hfour, UserMem.storeWord, hup, List.append_assoc]
      · rw [hmem (by omega), hfour, List.flatMap_cons, UserMem.storeWord, hup]
        refine push_append ?_
        rw [length_flatMap_const _ length_bytesDown, length_bytesDown]
        omega

/-- A word on top of what was stored below it. -/
lemma storeWord_mem {m : UInt32 → UInt8} {b w : UInt32} {l : List UInt8}
    (hs : s.mem = push m b l) (hb : a + 3 = b + 4) (hl : l.length + 4 ≤ 2 ^ 32) :
    (s.storeWord a w).mem = push m (a + 3) (bytesDown w ++ l) := by
  have hbelow : b = a + 3 - UInt32.ofNat (bytesDown w).length := by
    rw [hb]
    exact (UInt32.add_sub_cancel b 4).symm
  rw [UserMem.storeWord, hs, hbelow]
  refine push_push_above ?_
  rw [length_bytesDown]
  omega

lemma mem_storeWord_stored {b w : UInt32} :
    b ∈ (s.storeWord a w).stored ↔ b ∈ s.stored ∨ b ∈ below (a + 3) 4 := List.mem_append

/-- **The five words**, stored from the lowest one up. -/
lemma fiveWords_spec (s : UserMem) (top w0 w1 w2 w3 w4 : UInt32) :
    let s' := ((((s.storeWord (top - 16) w0).storeWord (top - 12) w1).storeWord
      (top - 8) w2).storeWord (top - 4) w3).storeWord top w4
    s'.mem = push s.mem (top + 3) ([w4, w3, w2, w1, w0].flatMap bytesDown) ∧
      ∀ b, b ∈ s'.stored ↔ b ∈ s.stored ∨ b ∈ below (top + 3) 20 := by
  have hup : ∀ n : ℕ, n + 4 ≤ 16 →
      top - UInt32.ofNat n + 3 = top - UInt32.ofNat (n + 4) + 3 + 4 := by
    intro n hn
    apply UInt32.toNat_inj.mp
    simp only [UInt32.toNat_sub, UInt32.toNat_add, UInt32.toNat_ofNat', UInt32.reduceToNat]
    omega
  have htop : top - UInt32.ofNat 0 = top := UInt32.sub_zero top
  have hup0 := hup 0 (by decide)
  rw [htop, Nat.zero_add] at hup0
  refine ⟨?_, fun b => ?_⟩
  · have h1 := storeWord_mem (s := s.storeWord (top - 16) w0) (w := w1) rfl (hup 12 (by decide))
      (by simp)
    have h2 := storeWord_mem (w := w2) h1 (hup 8 (by decide)) (by simp)
    have h3 := storeWord_mem (w := w3) h2 (hup 4 (by decide)) (by simp)
    have h4 := storeWord_mem (a := top) (w := w4) h3 hup0 (by simp)
    exact h4
  · have hbelow : below (top + 3) 20 = below (top + 3) 4 ++ (below (top - 4 + 3) 4 ++
        (below (top - 8 + 3) 4 ++ (below (top - 12 + 3) 4 ++ below (top - 16 + 3) 4))) := by
      have hdown : ∀ n : ℕ, n + 4 ≤ 16 →
          top - UInt32.ofNat n + 3 - UInt32.ofNat 4 = top - UInt32.ofNat (n + 4) + 3 := by
        intro n hn
        rw [hup n hn]
        exact UInt32.add_sub_cancel _ 4
      rw [below_add (top + 3) 4 16, below_add _ 4 12, below_add _ 4 8, below_add _ 4 4]
      have h0 := hdown 0 (by decide)
      have h1 := hdown 4 (by decide)
      have h2 := hdown 8 (by decide)
      have h3 := hdown 12 (by decide)
      rw [htop] at h0
      rw [h0, h1, h2, h3]
      rfl
    simp only [mem_storeWord_stored, hbelow, List.mem_append]
    constructor
    · rintro (((((h | h) | h) | h) | h) | h) <;> simp only [h, true_or, or_true]
    · rintro (h | h | h | h | h | h) <;> simp only [h, true_or, or_true]

/-! ### The loader -/

/-- **What the loader leaves**: the addresses of the strings, the addresses stored to, and the
memory. -/
structure StackLoaded (argv : List (List UInt8)) (ptrs : List UInt32) (s s' : UserMem) : Prop where
  length : ptrs.length = argv.length
  starts : ∀ i arg, argv[i]? = some arg →
    ptrs[i]? = some (userStackTop - UInt32.ofNat (argOffset argv i + arg.length))
  stored : ∀ a, a ∈ s'.stored ↔ a ∈ s.stored ∨ a ∈ below userStackTop (argsBytes argv).length ∨
    a ∈ below (stackTopOf argv - 1) (4 * (argv.length + 5))
  mem : (argsBytes argv).length ≤ 2 ^ 32 → 4 * (argv.length + 5) ≤ 2 ^ 32 →
    s'.mem = push (push s.mem userStackTop (argsBytes argv)) (stackTopOf argv - 1)
      ((ptrs.reverse ++ [userStackBottom, userStackTop,
        stackTopOf argv - UInt32.ofNat (4 * argv.length), UInt32.ofNat argv.length, 0]).flatMap
          bytesDown)

/-- **The loader**, for any strings at all. -/
theorem loadUserStack_spec (argv : List (List UInt8)) (s : UserMem) :
    ∃ ptrs s', loadUserStack true argv s =
        .ok (stackTopOf argv - UInt32.ofNat (4 * (argv.length + 5)), s') ∧
      StackLoaded argv ptrs s s' := by
  obtain ⟨hlen, hptrs, hesp, hstored, hmem⟩ := fillArgs_spec argv userStackTop s
  simp only [loadUserStack, not_true_eq_false, if_false]
  generalize fillArgs argv userStackTop s = r at hlen hptrs hesp hstored hmem
  obtain ⟨ptrs, esp, s₁⟩ := r
  simp only at hlen hptrs hesp hstored hmem
  obtain ⟨htop, hstored', hmem'⟩ := fillPtrs_spec ptrs.reverse (esp - esp % 4) s₁
  have hround : esp - esp % 4 = stackTopOf argv := by rw [hesp, stackTopOf]
  rw [hround] at htop hstored' hmem' ⊢
  rw [List.length_reverse, hlen] at htop hstored' hmem'
  generalize fillPtrs ptrs.reverse (stackTopOf argv - 4) s₁ = r at htop hstored' hmem'
  obtain ⟨top, s₂⟩ := r
  simp only at htop hstored' hmem' ⊢
  have hfinal : top + 4 = stackTopOf argv - UInt32.ofNat (4 * argv.length) := by
    rw [htop]
    apply UInt32.toNat_inj.mp
    simp only [UInt32.toNat_sub, UInt32.toNat_add, UInt32.toNat_ofNat', UInt32.reduceToNat]
    omega
  have hlast : top - 16 = stackTopOf argv - UInt32.ofNat (4 * (argv.length + 5)) := by
    rw [htop]
    apply UInt32.toNat_inj.mp
    simp only [UInt32.toNat_sub, UInt32.toNat_ofNat', UInt32.reduceToNat]
    omega
  have hfive : top + 3 = stackTopOf argv - 1 - UInt32.ofNat (4 * argv.length) := by
    rw [htop]
    apply UInt32.toNat_inj.mp
    simp only [UInt32.toNat_sub, UInt32.toNat_add, UInt32.toNat_ofNat', UInt32.toNat_one,
      UInt32.reduceToNat]
    omega
  obtain ⟨hmem5, hstored5⟩ := fiveWords_spec s₂ top 0 (UInt32.ofNat argv.length) (top + 4)
    userStackTop userStackBottom
  rw [← hlast]
  refine ⟨ptrs, _, rfl, hlen, hptrs, fun a => ?_, ?_⟩
  · have hsum : 4 * (argv.length + 5) = 4 * argv.length + 20 := by omega
    rw [hstored5, hstored', hstored, hfive, hsum, below_add]
    simp only [List.mem_append, or_assoc]
  · intro hN hA
    have hflat : (ptrs.reverse.flatMap bytesDown).length = 4 * argv.length := by
      rw [length_flatMap_const _ length_bytesDown, List.length_reverse, hlen]
    rw [hmem5, hmem' (by omega), hmem hN, hfinal, hfive, List.flatMap_append, ← hflat]
    refine push_append ?_
    rw [hflat, length_flatMap_const _ length_bytesDown]
    exact (Nat.mul_add 4 _ 5).symm.trans_le hA

/-! ### The arguments of the program -/

/-- Two regions of memory, given by their addresses and lengths, do not overlap. -/
def NoOverlap (r r' : ℕ × ℕ) : Prop := r.1 + r.2 ≤ r'.1 ∨ r'.1 + r'.2 ≤ r.1

/-- The five words at `sp`, the pointers at `argvPtr`, and the strings that these point to. -/
def regions (m : UInt32 → UInt8) (sp argvPtr : UInt32) (argv : List (List UInt8)) :
    List (ℕ × ℕ) :=
  (sp.toNat, 20) :: (argvPtr.toNat, 4 * argv.length) :: argv.mapIdx fun i arg =>
    ((wordAt m (argvPtr + UInt32.ofNat (4 * i))).toNat, arg.length + 1)

/-- **What a program finds**: the five words, and behind each pointer a copy of its string. -/
structure ArgsLoaded (m : UInt32 → UInt8) (sp argvPtr : UInt32) (argv : List (List UInt8)) :
    Prop where
  returnAddress : wordAt m sp = 0
  argcWord : wordAt m (sp + 4) = UInt32.ofNat argv.length
  argvWord : wordAt m (sp + 8) = argvPtr
  stackHigh : wordAt m (sp + 12) = userStackTop
  stackLow : wordAt m (sp + 16) = userStackBottom
  strings : ∀ i arg, argv[i]? = some arg → ∀ j v, (arg ++ [0])[j]? = some v →
    m (wordAt m (argvPtr + UInt32.ofNat (4 * i)) + UInt32.ofNat j) = v
  disjoint : (regions m sp argvPtr argv).Pairwise NoOverlap
  inside : ∀ r ∈ regions m sp argvPtr argv,
    userStackBottom.toNat ≤ r.1 ∧ r.1 + r.2 ≤ userStackTop.toNat + 1

lemma top_toNat : userStackTop.toNat = 4294967280 := rfl

lemma bottom_toNat : userStackBottom.toNat = 4294959104 := rfl

/-- The address below the strings, as a number. -/
lemma stackTopOf_toNat (h : (argsBytes argv).length ≤ userStackTop.toNat) :
    (stackTopOf argv).toNat = userStackTop.toNat - (argsBytes argv).length -
      (userStackTop.toNat - (argsBytes argv).length) % 4 := by
  have hesp := toNat_sub_ofNat h
  generalize hE : userStackTop - UInt32.ofNat (argsBytes argv).length = E at hesp
  have hlt := E.toNat_lt
  have hfour : (4 : UInt32).toNat = 4 := rfl
  rw [stackTopOf, hE, ← hesp, UInt32.toNat_sub, UInt32.toNat_mod, hfour]
  omega

namespace StackLoaded

variable {ptrs : List UInt32} {s' : UserMem}

/-- A word of the lower run: the pointers from the last one down, and the five words. -/
lemma wordAt_eq (h : StackLoaded argv ptrs s s') (hfits : Fits argv) {w : UInt32}
    (hw : (ptrs.reverse ++ [userStackBottom, userStackTop,
      stackTopOf argv - UInt32.ofNat (4 * argv.length), UInt32.ofNat argv.length, 0])[i]? =
        some w) (ha : a = stackTopOf argv - UInt32.ofNat (4 * (i + 1))) :
    wordAt s'.mem a = w := by
  unfold Fits at hfits
  rw [top_toNat, bottom_toNat] at hfits
  have hdown : a = stackTopOf argv - 1 - UInt32.ofNat (4 * i + 3) := by
    rw [ha]
    apply UInt32.toNat_inj.mp
    simp only [UInt32.toNat_sub, UInt32.toNat_ofNat', UInt32.toNat_one]
    omega
  rw [h.mem (by omega) (by omega), hdown]
  refine wordAt_push hw ?_
  rw [List.length_append, List.length_reverse, h.length]
  simp only [List.length_cons, List.length_nil]
  omega

/-- The pointer to a string. -/
lemma wordAt_ptr (h : StackLoaded argv ptrs s s') (hfits : Fits argv) (hi : argv[i]? = some arg) :
    wordAt s'.mem (stackTopOf argv - UInt32.ofNat (4 * argv.length) + UInt32.ofNat (4 * i)) =
      userStackTop - UInt32.ofNat (argOffset argv i + arg.length) := by
  obtain ⟨hlt, -⟩ := List.getElem?_eq_some_iff.mp hi
  have hlt' : argv.length - 1 - i < ptrs.reverse.length := by
    rw [List.length_reverse, h.length]
    omega
  refine h.wordAt_eq hfits (i := argv.length - 1 - i) ?_ ?_
  · rw [List.getElem?_append_left hlt', List.getElem?_reverse (by rw [h.length]; omega), h.length]
    have hback : argv.length - 1 - (argv.length - 1 - i) = i := by omega
    rw [hback]
    exact h.starts i arg hi
  · apply UInt32.toNat_inj.mp
    simp only [UInt32.toNat_sub, UInt32.toNat_add, UInt32.toNat_ofNat']
    omega

/-- One of the five words. -/
lemma wordAt_five (h : StackLoaded argv ptrs s s') (hfits : Fits argv) {w : UInt32} (hi : i < 5)
    (hw : [userStackBottom, userStackTop, stackTopOf argv - UInt32.ofNat (4 * argv.length),
      UInt32.ofNat argv.length, 0][i]? = some w) :
    wordAt s'.mem (stackTopOf argv - UInt32.ofNat (4 * (argv.length + 5)) +
      UInt32.ofNat (16 - 4 * i)) = w := by
  refine h.wordAt_eq hfits (i := argv.length + i) ?_ ?_
  · rw [List.getElem?_append_right (by rw [List.length_reverse, h.length]; omega),
      List.length_reverse, h.length, Nat.add_sub_cancel_left]
    exact hw
  · apply UInt32.toNat_inj.mp
    simp only [UInt32.toNat_sub, UInt32.toNat_add, UInt32.toNat_ofNat']
    omega

/-- What lies above the words: the strings, and what was there before. -/
lemma mem_above (h : StackLoaded argv ptrs s s') (hfits : Fits argv)
    (ha : (stackTopOf argv).toNat ≤ a.toNat) :
    s'.mem a = push s.mem userStackTop (argsBytes argv) a := by
  unfold Fits at hfits
  have hround := @stackTopOf_toNat argv (by omega)
  rw [top_toNat, bottom_toNat] at hfits
  rw [top_toNat] at hround
  rw [h.mem (by omega) (by omega)]
  refine push_of_le ?_
  have hlt := a.toNat_lt
  rw [length_flatMap_const _ length_bytesDown, List.length_append, List.length_reverse, h.length]
  simp only [List.length_cons, List.length_nil, UInt32.toNat_sub, UInt32.toNat_one]
  omega

/-- A byte of a string. -/
lemma mem_string (h : StackLoaded argv ptrs s s') (hfits : Fits argv) (hi : argv[i]? = some arg)
    {v : UInt8} (hv : (arg ++ [0])[j]? = some v) :
    s'.mem (userStackTop - UInt32.ofNat (argOffset argv i + arg.length) + UInt32.ofNat j) = v := by
  have hj : j ≤ arg.length := by
    have hlt := (List.getElem?_eq_some_iff.mp hv).1
    rw [List.length_append, List.length_singleton] at hlt
    omega
  have hend := argOffset_le argv (i + 1)
  rw [argOffset_succ hi] at hend
  have hN : (argsBytes argv).length ≤ userStackTop.toNat := by
    unfold Fits at hfits
    omega
  have hround := stackTopOf_toNat hN
  rw [top_toNat] at hN hround
  have haddr : userStackTop - UInt32.ofNat (argOffset argv i + arg.length) + UInt32.ofNat j =
      userStackTop - UInt32.ofNat (argOffset argv i + (arg.length - j)) := by
    apply UInt32.toNat_inj.mp
    simp only [UInt32.toNat_sub, UInt32.toNat_add, UInt32.toNat_ofNat']
    omega
  have hplace := toNat_sub_ofNat (e := userStackTop) (j := argOffset argv i + (arg.length - j))
    (by rw [top_toNat]; omega)
  rw [top_toNat] at hplace
  rw [haddr, h.mem_above hfits (by omega)]
  exact push_sub v ((getElem?_argsBytes hi hj).trans hv) (by omega)

end StackLoaded

/-- The strings lie below the top of the stack, one below the other. -/
lemma argStart_toNat (hfits : Fits argv) (hi : argv[i]? = some arg) :
    (userStackTop - UInt32.ofNat (argOffset argv i + arg.length)).toNat + arg.length + 1 =
        userStackTop.toNat + 1 - argOffset argv i ∧
      (stackTopOf argv).toNat <
        (userStackTop - UInt32.ofNat (argOffset argv i + arg.length)).toNat := by
  have hend := argOffset_le argv (i + 1)
  rw [argOffset_succ hi] at hend
  have hN : (argsBytes argv).length ≤ userStackTop.toNat := by
    unfold Fits at hfits
    omega
  rw [stackTopOf_toNat hN, toNat_sub_ofNat (by omega)]
  omega

/-- **The arguments of a program arrive intact**: whatever memory was before, the five words, the
pointers and the strings are there, apart from each other. -/
theorem loadUserStack_argsLoaded (argv : List (List UInt8)) (hfits : Fits argv) (s : UserMem) :
    ∃ sp argvPtr s', loadUserStack true argv s = .ok (sp, s') ∧
      ArgsLoaded s'.mem sp argvPtr argv := by
  obtain ⟨ptrs, s', hrun, hl⟩ := loadUserStack_spec argv s
  refine ⟨_, stackTopOf argv - UInt32.ofNat (4 * argv.length), s', hrun, ?_⟩
  -- the pointers of the call as numbers: nothing wraps, as the list fits
  have hround := @stackTopOf_toNat argv (by unfold Fits at hfits; omega)
  have hwords : (stackTopOf argv - UInt32.ofNat (4 * (argv.length + 5))).toNat =
      (stackTopOf argv).toNat - 4 * (argv.length + 5) :=
    toNat_sub_ofNat (by unfold Fits at hfits; omega)
  have hptrs : (stackTopOf argv - UInt32.ofNat (4 * argv.length)).toNat =
      (stackTopOf argv).toNat - 4 * argv.length :=
    toNat_sub_ofNat (by unfold Fits at hfits; omega)
  have hbottom : userStackBottom.toNat + 4 * (argv.length + 5) ≤ (stackTopOf argv).toNat := by
    unfold Fits at hfits
    omega
  have htop : (stackTopOf argv).toNat ≤ userStackTop.toNat := by omega
  -- every string lies above the words and below the top of the stack
  have hstring : ∀ r ∈ argv.mapIdx fun i arg => ((wordAt s'.mem (stackTopOf argv -
      UInt32.ofNat (4 * argv.length) + UInt32.ofNat (4 * i))).toNat, arg.length + 1),
      (stackTopOf argv).toNat < r.1 ∧ r.1 + r.2 ≤ userStackTop.toNat + 1 := by
    intro r hr
    obtain ⟨i, hi, rfl⟩ := List.mem_mapIdx.mp hr
    have hget : argv[i]? = some argv[i] := List.getElem?_eq_getElem hi
    obtain ⟨hend, hlow⟩ := argStart_toNat hfits hget
    rw [hl.wordAt_ptr hfits hget]
    exact ⟨hlow, by omega⟩
  exact {
    returnAddress := by
      have hword := hl.wordAt_five hfits (i := 4) (by decide) rfl
      rwa [show UInt32.ofNat (16 - 4 * 4) = 0 from rfl, UInt32.add_zero] at hword
    argcWord := hl.wordAt_five hfits (i := 3) (by decide) rfl
    argvWord := hl.wordAt_five hfits (i := 2) (by decide) rfl
    stackHigh := hl.wordAt_five hfits (i := 1) (by decide) rfl
    stackLow := hl.wordAt_five hfits (i := 0) (by decide) rfl
    strings := by
      intro i arg hi j v hv
      rw [hl.wordAt_ptr hfits hi]
      exact hl.mem_string hfits hi hv
    disjoint := by
      refine List.pairwise_cons.mpr ⟨?_, List.pairwise_cons.mpr ⟨?_, ?_⟩⟩
      -- the five words lie below the pointers and the strings
      · intro r hr
        refine .inl ?_
        rcases List.mem_cons.mp hr with rfl | hr
        · omega
        · have hlow := (hstring r hr).1
          omega
      · intro r hr
        refine .inl ?_
        have hlow := (hstring r hr).1
        omega
      · -- the strings, from the top of the stack down
        rw [List.pairwise_iff_getElem]
        intro i k hi hk hik
        rw [List.length_mapIdx] at hi hk
        have hgeti : argv[i]? = some argv[i] := List.getElem?_eq_getElem hi
        have hgetk : argv[k]? = some argv[k] := List.getElem?_eq_getElem hk
        obtain ⟨hendi, -⟩ := argStart_toNat hfits hgeti
        obtain ⟨hendk, -⟩ := argStart_toNat hfits hgetk
        have hoff := @argOffset_mono argv (i + 1) k hik
        rw [argOffset_succ hgeti] at hoff
        have hend := argOffset_le argv k
        have hN : (argsBytes argv).length ≤ userStackTop.toNat := by
          unfold Fits at hfits
          omega
        refine .inr ?_
        rw [List.getElem_mapIdx, List.getElem_mapIdx, hl.wordAt_ptr hfits hgeti,
          hl.wordAt_ptr hfits hgetk]
        omega
    inside := by
      intro r hr
      rcases List.mem_cons.mp hr with rfl | hr
      · exact ⟨by omega, by omega⟩
      rcases List.mem_cons.mp hr with rfl | hr
      · exact ⟨by omega, by omega⟩
      · obtain ⟨hlow, hhigh⟩ := hstring r hr
        exact ⟨by omega, hhigh⟩ }

/-- Three strings, one of them empty, in memory that holds anything. -/
theorem loadUserStack_argsLoaded_three :
    ∃ sp argvPtr s', loadUserStack true [[97], [], [98, 99]] ⟨fun _ => 255, []⟩ = .ok (sp, s') ∧
      ArgsLoaded s'.mem sp argvPtr [[97], [], [98, 99]] :=
  loadUserStack_argsLoaded [[97], [], [98, 99]] (by decide) ⟨fun _ => 255, []⟩

end ShrekOS
