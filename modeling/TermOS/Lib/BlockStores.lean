import Mathlib.Data.List.GetD
import Mathlib.Data.UInt

/-!
# Programs of stores and copies

A program without branches over a memory of bytes with addresses of 32 bits
that wrap: its operations are known before it runs, and so are the bytes it
touches. `window` looks at a memory from a base on. There addresses are natural
numbers, and an operation is `putAt`.

What a loop over blocks of equal size comes to is said once, in `sweep_blocks`:
where each round writes its own block and finds everything behind the blocks
before as it was, every block has what its round had to write. Rows of pixels
are such blocks, and so are the pixels of a row.
-/

namespace TermOS.Lib

inductive MemOp where
  | write (a : UInt32) (bytes : List UInt8)
  /-- A load of `n` bytes, and a store of what was loaded. -/
  | copy (n : Nat) (src dest : UInt32)

namespace MemOp

def addresses (a : UInt32) (n : Nat) : List UInt32 :=
  (List.range n).map fun k => a + UInt32.ofNat k

def put (m : UInt32 → UInt8) (a : UInt32) (bytes : List UInt8) :
    UInt32 → UInt8 :=
  fun x => if (x - a).toNat < bytes.length then bytes.getD (x - a).toNat 0
    else m x

def exec (m : UInt32 → UInt8) : MemOp → UInt32 → UInt8
  | write a bytes => put m a bytes
  | copy n src dest => put m dest ((addresses src n).map m)

def run (m : UInt32 → UInt8) (ops : List MemOp) : UInt32 → UInt8 :=
  ops.foldl exec m

/-- The addresses that are read or written. -/
def touched : MemOp → List UInt32
  | write a bytes => addresses a bytes.length
  | copy n src dest => addresses src n ++ addresses dest n

theorem run_append (m : UInt32 → UInt8) (ops ops' : List MemOp) :
    run m (ops ++ ops') = run (run m ops) ops' := List.foldl_append

/-- An address that no operation touches keeps its byte. -/
theorem run_of_not_touched {m : UInt32 → UInt8} {ops : List MemOp} {x : UInt32}
    (h : x ∉ ops.flatMap touched) : run m ops x = m x := by
  induction ops generalizing m with
  | nil => rfl
  | cons op ops ih =>
      rw [List.flatMap_cons, List.mem_append, not_or] at h
      refine (ih h.2).trans ?_
      have hput : ∀ (a : UInt32) (bytes : List UInt8),
          x ∉ addresses a bytes.length → put m a bytes x = m x := by
        intro a bytes hx
        refine if_neg fun hlt => hx ?_
        refine List.mem_map.2 ⟨(x - a).toNat, List.mem_range.2 hlt, ?_⟩
        rw [UInt32.ofNat_toNat, UInt32.add_comm, UInt32.sub_add_cancel]
      cases op with
      | write a bytes => exact hput a bytes h.1
      | copy n src dest =>
          have hdest : x ∉ addresses dest n := fun hx =>
            h.1 (List.mem_append_right _ hx)
          refine hput dest _ ?_
          have hlen : ((addresses src n).map m).length = n := by
            rw [List.length_map, addresses, List.length_map, List.length_range]
          rw [hlen]
          exact hdest

/-! ## From a base on -/

def window (base : UInt32) (m : UInt32 → UInt8) (o : Nat) : UInt8 :=
  if o < 2 ^ 32 then m (base + UInt32.ofNat o) else 0

def putAt (g : Nat → UInt8) (o : Nat) (bytes : List UInt8) : Nat → UInt8 :=
  fun k => if o ≤ k ∧ k < o + bytes.length then bytes.getD (k - o) 0 else g k

variable {base : UInt32} {m : UInt32 → UInt8} {g : Nat → UInt8} {n o k : Nat}
  {bytes : List UInt8}

theorem window_of_lt (h : o < 2 ^ 32) :
    window base m o = m (base + UInt32.ofNat o) := if_pos h

/-- How far one place is behind another, or in front of it. -/
theorem toNat_sub_place (ho : o < 2 ^ 32) (hk : k < 2 ^ 32) :
    (base + UInt32.ofNat k - (base + UInt32.ofNat o)).toNat =
      if o ≤ k then k - o else 2 ^ 32 + k - o := by
  have hbase := base.toNat_lt
  rw [UInt32.toNat_sub, UInt32.toNat_add, UInt32.toNat_add,
    UInt32.toNat_ofNat', UInt32.toNat_ofNat', Nat.mod_eq_of_lt ho,
    Nat.mod_eq_of_lt hk]
  split <;> omega

theorem window_put (h : o + bytes.length ≤ 2 ^ 32) (ho : o < 2 ^ 32) :
    window base (put m (base + UInt32.ofNat o) bytes) =
      putAt (window base m) o bytes := by
  funext k
  rw [putAt]
  by_cases hk : k < 2 ^ 32
  · rw [window_of_lt hk, window_of_lt hk, put, toNat_sub_place ho hk]
    by_cases hle : o ≤ k
    · rw [if_pos hle]
      by_cases hin : k < o + bytes.length
      · rw [if_pos (by omega), if_pos ⟨hle, hin⟩]
      · rw [if_neg (by omega), if_neg fun hboth => hin hboth.2]
    · rw [if_neg hle, if_neg (by omega), if_neg fun hboth => hle hboth.1]
  · rw [if_neg (by omega), window, window, if_neg hk, if_neg hk]

theorem map_addresses (h : o + n ≤ 2 ^ 32) :
    (addresses (base + UInt32.ofNat o) n).map m =
      (List.range n).map fun k => window base m (o + k) := by
  rw [addresses, List.map_map]
  refine List.map_congr_left fun k hk => ?_
  have hlt := List.mem_range.1 hk
  rw [window_of_lt (by omega), UInt32.ofNat_add, ← UInt32.add_assoc]
  rfl

theorem window_write (h : o + bytes.length ≤ 2 ^ 32) (ho : o < 2 ^ 32) :
    window base (exec m (.write (base + UInt32.ofNat o) bytes)) =
      putAt (window base m) o bytes := window_put h ho

theorem window_copy {s : Nat} (hs : s + n ≤ 2 ^ 32) (ho : o + n ≤ 2 ^ 32)
    (hlt : o < 2 ^ 32) :
    window base (exec m (.copy n (base + UInt32.ofNat s)
      (base + UInt32.ofNat o))) =
      putAt (window base m) o
        ((List.range n).map fun k => window base m (s + k)) := by
  rw [exec, map_addresses hs, window_put _ hlt]
  rw [List.length_map, List.length_range]
  exact ho

/-! ## One store -/

theorem putAt_at (g : Nat → UInt8) (o : Nat) (h : k < bytes.length) :
    putAt g o bytes (o + k) = bytes.getD k 0 := by
  rw [putAt, if_pos (by omega), Nat.add_sub_cancel_left]

theorem putAt_of_not (h : k < o ∨ o + bytes.length ≤ k) :
    putAt g o bytes k = g k := by
  rw [putAt, if_neg (by omega)]

/-- Two stores one behind the other. -/
theorem putAt_putAt (g : Nat → UInt8) (o : Nat) (bytes more : List UInt8) :
    putAt (putAt g o bytes) (o + bytes.length) more =
      putAt g o (bytes ++ more) := by
  funext k
  rw [putAt, putAt, putAt, List.length_append]
  by_cases hlo : o ≤ k ∧ k < o + bytes.length
  · rw [if_neg (by omega), if_pos hlo, if_pos (by omega),
      List.getD_append _ _ _ _ (by omega)]
  · by_cases hhi : o + bytes.length ≤ k ∧ k < o + bytes.length + more.length
    · rw [if_pos hhi, if_pos (by omega),
        List.getD_append_right _ _ _ _ (by omega), Nat.sub_sub]
    · rw [if_neg hhi, if_neg hlo, if_neg (by omega)]

end MemOp

/-! ## Sweeps -/

section Sweep

variable {β : Type*} {f : Nat → (Nat → β) → Nat → β} {place : Nat → Nat}
  {v : Nat → Nat → β} {g₀ : Nat → β} {n e : Nat}

/-- The rounds `0` to `n - 1` of a loop over a memory. -/
def sweep (f : Nat → (Nat → β) → Nat → β) (g : Nat → β) (n : Nat) : Nat → β :=
  (List.range n).foldl (fun g i => f i g) g

theorem sweep_succ (f : Nat → (Nat → β) → Nat → β) (g : Nat → β) (n : Nat) :
    sweep f g (n + 1) = f n (sweep f g n) := by
  rw [sweep, List.range_succ, List.foldl_append]
  rfl

/-- Outside the first blocks a memory is as it was. -/
def Untouched (place : Nat → Nat) (e : Nat) (g₀ g : Nat → β) (n : Nat) : Prop :=
  ∀ k, (∀ i < n, k < place i ∨ place i + e ≤ k) → g k = g₀ k

/-- A round writes its block and nothing else. -/
structure Writes (f : (Nat → β) → Nat → β) (place e : Nat) (v : Nat → β)
    (g : Nat → β) : Prop where
  block : ∀ k < e, f g (place + k) = v k
  frame : ∀ k, k < place ∨ place + e ≤ k → f g k = g k

/-- A block ends before the blocks behind it. -/
theorem block_le {i n e : Nat} (h : i < n) : i * e + e ≤ n * e := by
  have hle := Nat.mul_le_mul_right e (Nat.succ_le_of_lt h)
  rw [Nat.succ_mul] at hle
  exact hle

theorem sweep_blocks (f : Nat → (Nat → β) → Nat → β) (place : Nat → Nat)
    (g₀ : Nat → β) (happart : ∀ i j, i < j → j < n → place i + e ≤ place j)
    (hstep : ∀ i < n, ∀ g, Untouched place e g₀ g i →
      Writes (f i) (place i) e (v i) g) :
    (∀ i < n, ∀ k < e, sweep f g₀ n (place i + k) = v i k) ∧
      Untouched place e g₀ (sweep f g₀ n) n := by
  induction n with
  | zero =>
      exact ⟨fun i hi => absurd hi (Nat.not_lt_zero i), fun _ _ => rfl⟩
  | succ n ih =>
      obtain ⟨hblocks, hframe⟩ :=
        ih (fun i j hij hj => happart i j hij (by omega))
          fun i hi => hstep i (by omega)
      have hwrites := hstep n (Nat.lt_succ_self n) _ hframe
      rw [sweep_succ]
      refine ⟨?_, ?_⟩
      · intro i hi k hk
        rcases Nat.lt_succ_iff_lt_or_eq.1 hi with hlt | rfl
        · have hle := happart i n hlt (Nat.lt_succ_self n)
          rw [hwrites.frame _ (.inl (by omega)), hblocks i hlt k hk]
        · exact hwrites.block k hk
      · intro k hk
        rw [hwrites.frame k (hk n (Nat.lt_succ_self n))]
        exact hframe k fun i hi => hk i (by omega)

end Sweep

namespace MemOp

/-- A program that is a loop, looked at from a base on. -/
theorem window_run_flatMap {base : UInt32} {P : Nat → List MemOp}
    {f : Nat → (Nat → UInt8) → Nat → UInt8} {n : Nat}
    (h : ∀ i < n, ∀ m, window base (run m (P i)) = f i (window base m))
    (m : UInt32 → UInt8) :
    window base (run m ((List.range n).flatMap P)) =
      sweep f (window base m) n := by
  induction n with
  | zero => rfl
  | succ n ih =>
      rw [List.range_succ, List.flatMap_append, List.flatMap_singleton,
        run_append, h n (Nat.lt_succ_self n),
        ih fun i hi => h i (by omega), sweep_succ]

end MemOp

end TermOS.Lib
