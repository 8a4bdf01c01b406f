import TermOS.Lib.Prefixes
import TermOS.Proofs.LineEditing
import TermOS.Ref.LineStores

/-!
# Whether a line fits its buffer

The index is the length of the line typed so far, so what decides about a store
is the line in front of it: a character or a newline is stored inside the array
if and only if that line is shorter than the array. Nothing in `>>` or in
`Shell::run` sees to it. The line finally entered does not tell, because
characters that were taken back have been stored as well.
-/

namespace TermOS.Console

open TermOS.Lib

/-- Characters without a backspace among them are the line. -/
theorem typed_of_notMem {ks : List UInt8} (h : backspace ∉ ks) :
    typed ks = ks := by
  induction ks using List.reverseRecOn with
  | nil => rfl
  | append_singleton ks c ih =>
      obtain ⟨hks, hc⟩ := not_or.1 (mt List.mem_append.2 h)
      have hc : c ≠ backspace := fun heq => hc (heq ▸ List.mem_singleton_self c)
      rw [LineInput.typed_concat, ih hks, typedKey, if_neg hc]

namespace LineInput

variable {s : LineInput} {reads : List UInt8} {line : List UInt8} {c : UInt8}

/-! ## The stores are those of the loop -/

theorem buffer_key (s : LineInput) (c : UInt8) :
    (s.key c).buffer = CString.apply s.buffer (s.keyStores c) := by
  rw [key, keyStores]
  split
  · split <;> rfl
  · rfl

theorem buffer_readLine (s : LineInput) (reads : List UInt8) :
    (s.readLine reads).1.buffer =
      CString.apply s.buffer (s.readLineStores reads) := by
  induction reads generalizing s with
  | nil => rfl
  | cons c reads ih =>
      rw [readLine, readLineStores]
      split
      · exact ih s
      · split
        · rfl
        · rw [ih, buffer_key, CString.apply_append]

/-! ## The index -/

theorem i_key (hi : s.i = line.length) :
    (s.key c).i = (typedKey line c).length := by
  rw [key, typedKey]
  split
  · split
    · simp [hi]
    · simp
      omega
  · simp [hi]

/-- Before the newline the index is the length of the line. -/
theorem i_readLine (hstart : s.i = 0) (hnew : newline ∉ reads) :
    (s.readLine reads).1.i = (typed (keystrokes reads)).length := by
  induction reads using List.reverseRecOn with
  | nil => exact hstart
  | append_singleton reads c ih =>
      obtain ⟨hreads, hc⟩ := not_or.1 (mt List.mem_append.2 hnew)
      have hc : c ≠ newline := fun h => hc (h ▸ List.mem_singleton_self c)
      rw [readLine_append hreads, keystrokes_concat, readLine, if_neg hc]
      split
      · exact ih hreads
      · rw [typed_concat]
        exact i_key (ih hreads)

/-! ## One read more -/

/-- Behind the newline nothing is read. -/
theorem readLineStores_append_of_mem (hnew : newline ∈ reads)
    (rest : List UInt8) :
    s.readLineStores (reads ++ rest) = s.readLineStores reads := by
  induction reads generalizing s with
  | nil => exact absurd hnew List.not_mem_nil
  | cons c reads ih =>
      rw [List.cons_append, readLineStores, readLineStores]
      have hrest : c ≠ newline → newline ∈ reads := fun hc =>
        (List.mem_cons.1 hnew).resolve_left hc.symm
      split
      · next hzero => exact ih (hrest (by rw [hzero]; decide))
      · split
        · rfl
        · next hc => rw [ih (hrest hc)]

/-- In front of it, one read more is one more round of the loop. -/
theorem readLineStores_concat (hnew : newline ∉ reads) (c : UInt8) :
    s.readLineStores (reads ++ [c]) =
      s.readLineStores reads ++ (s.readLine reads).1.readLineStores [c] := by
  induction reads generalizing s with
  | nil => rfl
  | cons d reads ih =>
      have hd : newline ≠ d := List.ne_of_not_mem_cons hnew
      have hreads := List.not_mem_of_not_mem_cons hnew
      rw [List.cons_append, readLineStores, readLineStores, readLine,
        if_neg hd.symm, if_neg hd.symm, if_neg hd.symm]
      split
      · exact ih hreads
      · rw [ih hreads, List.append_assoc]

/-- A round stores at the index, if at all. -/
theorem forall_stores_singleton (s : LineInput) (c : UInt8) (n : Nat) :
    (∀ x ∈ s.readLineStores [c], x.1 < n) ↔
      (c ≠ 0 → c ≠ backspace → s.i < n) := by
  rw [readLineStores]
  split
  · next hzero =>
      exact iff_of_true (fun x hx => absurd hx List.not_mem_nil)
        fun h => absurd hzero h
  · next hzero =>
      split
      · next hnew =>
          have hback : c ≠ backspace := by
            rw [hnew]
            decide
          rw [List.forall_mem_singleton]
          exact ⟨fun h _ _ => h, fun h => h hzero hback⟩
      · rw [keyStores, readLineStores, List.append_nil]
        split
        · next hback =>
            exact iff_of_true (fun x hx => absurd hx List.not_mem_nil)
              fun _ h => absurd hback h
        · next hback =>
            rw [List.forall_mem_singleton]
            exact ⟨fun h _ _ => h, fun h => h hzero hback⟩

end LineInput

open LineInput

/-- The line in front of each character and of the newline is shorter than
`n`. -/
def StaysBelow (n : Nat) (ks : List UInt8) : Prop :=
  AtEach (fun pre c => newline ∉ pre → c ≠ backspace →
    (typed pre).length < n) ks

theorem mem_keystrokes {reads : List UInt8} {c : UInt8} (hc : c ≠ 0) :
    c ∈ keystrokes reads ↔ c ∈ reads := by
  simp [keystrokes, hc]

/-- For every terminal, all contents of the array and everything that the
keyboard delivers, up to and behind the newline: `>>` stores inside the array,
the terminating zero included, if and only if a character or a newline never
comes when 128 characters are on the line. -/
theorem readLine_in_bounds_iff (buffer : Nat → UInt8) (t : Terminal)
    (reads : List UInt8) :
    (∀ x ∈ (⟨buffer, 0, t⟩ : LineInput).readLineStores reads,
        x.1 < inputSize) ↔
      StaysBelow inputSize (keystrokes reads) := by
  induction reads using List.reverseRecOn with
  | nil => exact iff_of_true (fun x hx => absurd hx List.not_mem_nil) .nil
  | append_singleton reads c ih =>
      have hmem : newline ∈ keystrokes reads ↔ newline ∈ reads :=
        mem_keystrokes (by decide)
      by_cases hnew : newline ∈ reads
      · rw [readLineStores_append_of_mem hnew, ih, keystrokes_concat]
        split
        · rfl
        · rw [StaysBelow, StaysBelow, AtEach.concat_iff]
          exact (and_iff_left fun h => absurd (hmem.2 hnew) h).symm
      · have hindex := i_readLine (s := ⟨buffer, 0, t⟩) rfl hnew
        rw [readLineStores_concat hnew, keystrokes_concat]
        simp only [List.mem_append, or_imp, forall_and]
        rw [ih, forall_stores_singleton, hindex]
        split
        · next hzero => exact and_iff_left fun hne => absurd hzero hne
        · next hzero =>
            rw [StaysBelow, StaysBelow, AtEach.concat_iff]
            refine and_congr_right fun _ => ?_
            exact ⟨fun h _ => h hzero, fun h _ => h (mt hmem.1 hnew)⟩

/-- Then the memory behind the array is as it was. -/
theorem readLine_frame {buffer : Nat → UInt8} {t : Terminal}
    {reads : List UInt8} (h : ∀ x ∈
      (⟨buffer, 0, t⟩ : LineInput).readLineStores reads, x.1 < inputSize)
    {a : Nat} (ha : inputSize ≤ a) :
    ((⟨buffer, 0, t⟩ : LineInput).readLine reads).1.buffer a = buffer a := by
  rw [buffer_readLine]
  exact CString.apply_of_forall_ne buffer fun x hx =>
    Nat.ne_of_lt (Nat.lt_of_lt_of_le (h x hx) ha)

/-- 128 letters and Enter: the terminating zero goes behind the array. -/
theorem not_readLine_in_bounds_long : ¬ ∀ x ∈
    (⟨fun _ => 0, 0, ⟨fun _ => 0, 0, 0, 0x0F, 0⟩⟩ : LineInput).readLineStores
      (List.replicate 128 0x61 ++ [newline]), x.1 < inputSize := by
  have hnew : newline ∉ List.replicate 128 (0x61 : UInt8) := by
    rw [List.mem_replicate]
    exact fun h => absurd h.2 (by decide)
  have hback : backspace ∉ List.replicate 128 (0x61 : UInt8) := by
    rw [List.mem_replicate]
    exact fun h => absurd h.2 (by decide)
  have hkeys : keystrokes (List.replicate 128 0x61) = List.replicate 128 0x61 :=
    List.filter_replicate_of_pos (by decide)
  have hindex := i_readLine
    (s := ⟨fun _ => 0, 0, ⟨fun _ => 0, 0, 0, 0x0F, 0⟩⟩) rfl hnew
  rw [hkeys, typed_of_notMem hback, List.length_replicate] at hindex
  intro hall
  have hlast := hall (128, 0) (by
    rw [readLineStores_concat hnew, List.mem_append, readLineStores, hindex]
    exact .inr List.mem_cons_self)
  exact absurd hlast (by decide)

end TermOS.Console
