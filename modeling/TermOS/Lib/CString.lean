import Mathlib.Data.List.GetD
import Mathlib.Data.UInt
import Mathlib.Logic.Function.Basic

/-!
# C strings in memory

A memory is its bytes by address, and a string in it ends at the first zero.
What the functions of `string.h` do is a list of stores, so that the places
they write to and the memory they leave come from one definition. There are no
lengths in these functions: a string that is too long for its place runs on
into the next one, and whether that hurts depends on what is there.
-/

namespace TermOS.Lib

namespace CString

/-- The stores of the bytes `bs`, one behind the other from `a` on. -/
def storesAt (a : Nat) : List UInt8 → List (Nat × UInt8)
  | [] => []
  | b :: bs => (a, b) :: storesAt (a + 1) bs

def apply (m : Nat → UInt8) (stores : List (Nat × UInt8)) : Nat → UInt8 :=
  stores.foldl (fun m s => Function.update m s.1 s.2) m

/-- The loop of `strcpy`, as far as `n` bytes. It loads from what it has stored
so far. -/
def strcpyLoop : Nat → (Nat → UInt8) → Nat → Nat → List (Nat × UInt8)
  | 0, _, _, _ => []
  | n + 1, m, dest, src =>
      (dest, m src) ::
        if m src = 0 then []
        else strcpyLoop n (Function.update m dest (m src)) (dest + 1) (src + 1)

/-- At `a` there is the string `s`, with its terminating zero. -/
def Holds (m : Nat → UInt8) (a : Nat) (s : List UInt8) : Prop :=
  0 ∉ s ∧ ∀ k ≤ s.length, m (a + k) = s.getD k 0

/-- The first `n` bytes. -/
def firstBytes (m : Nat → UInt8) (n : Nat) : List UInt8 := (List.range n).map m

variable {m : Nat → UInt8} {a b n dest src x : Nat} {s t bs : List UInt8}

/-- A store behind the first bytes. -/
theorem firstBytes_update (m : Nat → UInt8) (n : Nat) (v : UInt8) :
    firstBytes (Function.update m n v) n = firstBytes m n :=
  List.map_congr_left fun _ hj =>
    Function.update_of_ne (Nat.ne_of_lt (List.mem_range.1 hj)) _ _

theorem firstBytes_succ (m : Nat → UInt8) (n : Nat) :
    firstBytes m (n + 1) = firstBytes m n ++ [m n] := by
  rw [firstBytes, List.range_succ, List.map_append]
  rfl

/-- A store that is one of them, the last. -/
theorem firstBytes_push (m : Nat → UInt8) (n : Nat) (v : UInt8) :
    firstBytes (Function.update m n v) (n + 1) = firstBytes m n ++ [v] := by
  rw [firstBytes_succ, firstBytes_update, Function.update_self]

/-! ## Stores -/

theorem apply_append (m : Nat → UInt8) (ss ts : List (Nat × UInt8)) :
    apply m (ss ++ ts) = apply (apply m ss) ts := List.foldl_append

theorem mem_storesAt {y : Nat × UInt8} (h : y ∈ storesAt a bs) :
    a ≤ y.1 ∧ y.1 < a + bs.length := by
  induction bs generalizing a with
  | nil => cases h
  | cons b bs ih =>
      rw [List.length_cons]
      rcases List.mem_cons.1 h with rfl | htail
      · exact ⟨Nat.le_refl a, by show a < _; omega⟩
      · have hy := ih htail
        omega

theorem storesAt_append (a : Nat) (bs cs : List UInt8) :
    storesAt a (bs ++ cs) = storesAt a bs ++ storesAt (a + bs.length) cs := by
  induction bs generalizing a with
  | nil => rfl
  | cons b bs ih =>
      rw [List.cons_append, storesAt, storesAt, ih, List.cons_append,
        List.length_cons, Nat.add_assoc a 1, Nat.add_comm 1]

/-- The terminating zero is stored last. -/
theorem last_mem_storesAt (a : Nat) (s : List UInt8) :
    (a + s.length, 0) ∈ storesAt a (s ++ [0]) := by
  rw [storesAt_append]
  exact List.mem_append_right _ List.mem_cons_self

theorem apply_of_not (m : Nat → UInt8) (h : x < a ∨ a + bs.length ≤ x) :
    apply m (storesAt a bs) x = m x := by
  induction bs generalizing m a with
  | nil => rfl
  | cons b bs ih =>
      rw [List.length_cons] at h
      show apply (Function.update m a b) (storesAt (a + 1) bs) x = m x
      rw [ih _ (by omega), Function.update_of_ne (by omega)]

theorem apply_at (m : Nat → UInt8) (a : Nat) {k : Nat} (hk : k < bs.length) :
    apply m (storesAt a bs) (a + k) = bs.getD k 0 := by
  induction bs generalizing m a k with
  | nil => exact absurd hk (Nat.not_lt_zero k)
  | cons b bs ih =>
      rw [List.length_cons] at hk
      show apply (Function.update m a b) (storesAt (a + 1) bs) (a + k) = _
      cases k with
      | zero =>
          rw [apply_of_not _ (.inl (by omega)), Nat.add_zero,
            Function.update_self, List.getD_cons_zero]
      | succ k =>
          have hindex : a + (k + 1) = a + 1 + k := by omega
          rw [List.getD_cons_succ, hindex]
          exact ih _ _ (by omega)

theorem apply_of_forall_ne (m : Nat → UInt8) {stores : List (Nat × UInt8)}
    (h : ∀ y ∈ stores, y.1 ≠ x) : apply m stores x = m x := by
  induction stores generalizing m with
  | nil => rfl
  | cons y stores ih =>
      show apply (Function.update m y.1 y.2) stores x = m x
      rw [ih _ fun z hz => h z (List.mem_cons_of_mem y hz),
        Function.update_of_ne (h y List.mem_cons_self).symm]

/-! ## Blocks -/

/-- From `a` on there are the bytes `bs`. -/
def Block (m : Nat → UInt8) (a : Nat) (bs : List UInt8) : Prop :=
  ∀ k < bs.length, m (a + k) = bs.getD k 0

theorem block_storesAt (m : Nat → UInt8) (a : Nat) (bs : List UInt8) :
    Block (apply m (storesAt a bs)) a bs := fun _ hk => apply_at m a hk

theorem Block.congr {m' : Nat → UInt8} (h : Block m a bs)
    (heq : ∀ x, a ≤ x → x < a + bs.length → m' x = m x) : Block m' a bs := by
  intro k hk
  rw [heq (a + k) (Nat.le_add_right a k) (Nat.add_lt_add_left hk a), h k hk]

/-- A block is split between any two of its bytes. -/
theorem block_append {cs : List UInt8} : Block m a (bs ++ cs) ↔
    Block m a bs ∧ Block m (a + bs.length) cs := by
  simp only [Block, List.length_append]
  refine ⟨fun h => ⟨fun k hk => ?_, fun k hk => ?_⟩, fun h k hk => ?_⟩
  · rw [h k (by omega), List.getD_append _ _ _ _ hk]
  · rw [Nat.add_assoc, h _ (by omega),
      List.getD_append_right _ _ _ _ (Nat.le_add_right _ k),
      Nat.add_sub_cancel_left]
  · by_cases hbs : k < bs.length
    · rw [h.1 k hbs, List.getD_append _ _ _ _ hbs]
    · obtain ⟨j, rfl⟩ := Nat.exists_eq_add_of_le (Nat.le_of_not_lt hbs)
      rw [← Nat.add_assoc, h.2 j (by omega),
        List.getD_append_right _ _ _ _ (Nat.le_add_right _ j),
        Nat.add_sub_cancel_left]

/-! ## Strings -/

/-- There is one string at a place. -/
theorem Holds.unique (h : Holds m a s) (ht : Holds m a t) : s = t := by
  have hle : ∀ {s t : List UInt8}, Holds m a s → Holds m a t →
      s.length ≤ t.length := by
    intro s t hs ht
    by_contra hlt
    -- The terminating zero of `t` would be a character of `s`.
    have hzero := hs.2 t.length (by omega)
    rw [ht.2 t.length (Nat.le_refl _), List.getD_eq_default _ _ (Nat.le_refl _),
      List.getD_eq_getElem _ _ (by omega)] at hzero
    exact hs.1 (hzero ▸ List.getElem_mem _)
  have hlen := Nat.le_antisymm (hle h ht) (hle ht h)
  refine List.ext_getElem hlen fun k hs ht' => ?_
  have hk := h.2 k (by omega)
  rw [ht.2 k (by omega), List.getD_eq_getElem _ _ ht',
    List.getD_eq_getElem _ _ hs] at hk
  exact hk.symm

/-- Stores elsewhere leave a string as it is. -/
theorem Holds.frame (h : Holds m a s)
    (hne : a + s.length < b ∨ b + bs.length ≤ a) :
    Holds (apply m (storesAt b bs)) a s := by
  refine ⟨h.1, fun k hk => ?_⟩
  rw [apply_of_not m (by omega), h.2 k hk]

/-- A string is a block with a zero behind it. -/
theorem Block.holds (h : Block m a (s ++ [0])) (hs : 0 ∉ s) : Holds m a s := by
  refine ⟨hs, fun k hk => ?_⟩
  rw [h k (by rw [List.length_append, List.length_singleton]; omega)]
  rcases Nat.lt_or_eq_of_le hk with hlt | rfl
  · rw [List.getD_append _ _ _ _ hlt]
  · rw [List.getD_append_right _ _ _ _ (Nat.le_refl _), Nat.sub_self,
      List.getD_eq_default s _ (Nat.le_refl _)]
    rfl

/-- `strcpy` from elsewhere. -/
theorem holds_storesAt (m : Nat → UInt8) (a : Nat) (hs : 0 ∉ s) :
    Holds (apply m (storesAt a (s ++ [0]))) a s := (block_storesAt m a _).holds hs

/-- A string stored at the end of the first `n` characters of another makes
one string with them. -/
theorem Holds.overwrite (h : Holds m a s) (hn : n ≤ s.length) (ht : 0 ∉ t) :
    Holds (apply m (storesAt (a + n) (t ++ [0]))) a (s.take n ++ t) := by
  have hlen : (s.take n).length = n := by
    rw [List.length_take, Nat.min_eq_left hn]
  refine ⟨fun hmem => ?_, fun k hk => ?_⟩
  · rcases List.mem_append.1 hmem with hs | hmem
    · exact h.1 (List.mem_of_mem_take hs)
    · exact ht hmem
  · rw [List.length_append, hlen] at hk
    by_cases hkn : k < n
    · rw [apply_of_not m (.inl (by omega)), h.2 k (by omega),
        List.getD_append _ _ _ _ (by omega), List.getD_eq_getElem _ _ (by omega),
        List.getD_eq_getElem _ _ (by omega), List.getElem_take]
    · obtain ⟨j, rfl⟩ : ∃ j, k = n + j := ⟨k - n, by omega⟩
      rw [← Nat.add_assoc, (holds_storesAt m (a + n) ht).2 j (by omega),
        List.getD_append_right _ _ _ _ (by omega), hlen, Nat.add_sub_cancel_left]

/-- To store the end of a string where it is changes nothing. -/
theorem Holds.apply_self (h : Holds m a s) (hn : n ≤ s.length) :
    apply m (storesAt (a + n) (s.drop n ++ [0])) = m := by
  have hdrop : 0 ∉ s.drop n := fun hmem => h.1 (List.mem_of_mem_drop hmem)
  have hlen : (s.drop n ++ [0]).length = s.length - n + 1 := by
    rw [List.length_append, List.length_drop, List.length_singleton]
  funext x
  by_cases hx : x < a + n ∨ a + n + (s.drop n ++ [0]).length ≤ x
  · exact apply_of_not m hx
  · obtain ⟨j, rfl⟩ : ∃ j, x = a + n + j := ⟨x - (a + n), by omega⟩
    rw [(holds_storesAt m (a + n) hdrop).2 j (by rw [List.length_drop]; omega),
      Nat.add_assoc, h.2 (n + j) (by omega), List.getD_eq_getElem?_getD,
      List.getElem?_drop, List.getD_eq_getElem?_getD]

/-- `strcpy` to a lower address copies the string as it was. -/
theorem strcpyLoop_eq (h : Holds m src s) (hdest : dest < src)
    (hn : s.length < n) :
    strcpyLoop n m dest src = storesAt dest (s ++ [0]) := by
  induction s generalizing m dest src n with
  | nil =>
      obtain ⟨n, rfl⟩ : ∃ k, n = k + 1 := ⟨n - 1, by omega⟩
      have hzero : m src = 0 := h.2 0 (Nat.zero_le _)
      rw [strcpyLoop, hzero, if_pos rfl]
      rfl
  | cons b s ih =>
      obtain ⟨n, rfl⟩ : ∃ k, n = k + 1 := ⟨n - 1, by omega⟩
      have hb : m src = b := h.2 0 (Nat.zero_le _)
      have hne : b ≠ 0 := fun heq => h.1 (heq ▸ List.mem_cons_self)
      rw [strcpyLoop, hb, if_neg hne, List.cons_append, storesAt]
      refine congrArg _ (ih ⟨fun hmem => h.1 (List.mem_cons_of_mem _ hmem),
        fun k hk => ?_⟩ (by omega) (by rw [List.length_cons] at hn; omega))
      rw [Function.update_of_ne (by omega), Nat.add_assoc, Nat.add_comm 1,
        h.2 (k + 1) (by rw [List.length_cons]; omega), List.getD_cons_succ]

end CString

end TermOS.Lib
