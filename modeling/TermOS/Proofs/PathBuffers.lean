import TermOS.Proofs.Paths
import TermOS.Ref.Fat32Path

/-!
# The buffers of `fat32_cd`

Stores that are inside their buffers do what the functions on strings say:
behind a `cd` the bytes of `current_path` are the path that `fat32_cd` is
modelled to have, with its terminating zero.
-/

namespace TermOS.Storage

open TermOS.Lib

/-- All stores are inside their buffer. -/
def InBuffers (stores : List PathStore) : Prop :=
  ∀ s ∈ stores, 0 ≤ s.index ∧ s.index ≤ 255

variable {ss ts : List PathStore} {b : PathBuffer} {a : Nat}
  {s path component old : Str} {m : PathBuffers}

theorem InBuffers.nil : InBuffers [] := fun _ hs => nomatch hs

theorem inBuffers_append :
    InBuffers (ss ++ ts) ↔ InBuffers ss ∧ InBuffers ts :=
  List.forall_mem_append

theorem inBuffers_copyStores :
    InBuffers (copyStores b a s) ↔ a + s.length ≤ 255 := by
  rw [copyStores]
  refine ⟨?_, ?_⟩
  · intro h
    have hlast := h _ (List.mem_map_of_mem (CString.last_mem_storesAt a s))
    have hindex : ((a + s.length : Nat) : Int) ≤ 255 := hlast.2
    omega
  · rintro h x hx
    obtain ⟨y, hy, rfl⟩ := List.mem_map.1 hx
    have hrange := CString.mem_storesAt hy
    rw [List.length_append, List.length_singleton] at hrange
    show 0 ≤ (y.1 : Int) ∧ (y.1 : Int) ≤ 255
    omega

/-- The two `strcat`s fit if the new path does. -/
theorem inBuffers_childStores :
    InBuffers (childStores path component) ↔ (childPath path component).length ≤ 255 := by
  rw [childStores, childPath]
  split
  · rw [inBuffers_append, catStores, catStores, inBuffers_copyStores,
      inBuffers_copyStores]
    simp only [List.length_append, List.length_singleton]
    omega
  · rw [catStores, inBuffers_copyStores, List.length_append]

/-! ## The bytes -/

def PathBuffers.after (m : PathBuffers) (stores : List PathStore) :
    PathBuffers := stores.foldl PathBuffers.store m

theorem PathBuffers.after_append (m : PathBuffers) (ss ts : List PathStore) :
    m.after (ss ++ ts) = (m.after ss).after ts := List.foldl_append

theorem after_copyStores (m : PathBuffers) (b : PathBuffer) (a : Nat)
    (s : Str) (hin : InBuffers (copyStores b a s)) :
    m.after (copyStores b a s) b =
      CString.apply (m b) (CString.storesAt a (s ++ [0])) := by
  rw [copyStores] at hin ⊢
  generalize CString.storesAt a (s ++ [0]) = xs at hin ⊢
  induction xs generalizing m with
  | nil => rfl
  | cons x xs ih =>
      rw [List.map_cons] at hin ⊢
      have hstore : m.store ⟨b, x.1, x.2⟩ b =
          Function.update (m b) x.1 x.2 :=
        if_pos ⟨rfl, hin _ List.mem_cons_self⟩
      show (m.store ⟨b, x.1, x.2⟩).after _ b = _
      rw [ih _ fun y hy => hin y (List.mem_cons_of_mem _ hy), hstore]
      rfl

theorem after_copyStores_of_ne (m : PathBuffers) {b b' : PathBuffer}
    (h : b' ≠ b) (a : Nat) (s : Str) :
    m.after (copyStores b a s) b' = m b' := by
  rw [copyStores]
  generalize CString.storesAt a (s ++ [0]) = xs
  induction xs generalizing m with
  | nil => rfl
  | cons x xs ih =>
      have hstore : m.store ⟨b, x.1, x.2⟩ b' = m b' :=
        if_neg fun hb => h hb.1
      show (m.store ⟨b, x.1, x.2⟩).after _ b' = _
      rw [ih, hstore]

/-- `current_path` holds the path. -/
def PathBuffers.Holds (m : PathBuffers) (path : Str) : Prop :=
  CString.Holds (m .currentPath) 0 path

theorem PathBuffers.Holds.copy (hs : 0 ∉ s)
    (hin : InBuffers (copyStores .currentPath 0 s)) :
    (m.after (copyStores .currentPath 0 s)).Holds s := by
  rw [Holds, after_copyStores m _ _ _ hin]
  exact CString.holds_storesAt _ 0 hs

/-- A store of a string at the `n`th character. -/
theorem PathBuffers.Holds.copy_at (h : m.Holds path) {n : Nat}
    (hn : n ≤ path.length) (hs : 0 ∉ s)
    (hin : InBuffers (copyStores .currentPath n s)) :
    (m.after (copyStores .currentPath n s)).Holds (path.take n ++ s) := by
  have hover := CString.Holds.overwrite h hn hs
  rw [Nat.zero_add] at hover
  rw [Holds, after_copyStores m _ _ _ hin]
  exact hover

theorem PathBuffers.Holds.cat (h : m.Holds path) (hs : 0 ∉ s)
    (hin : InBuffers (catStores path s)) :
    (m.after (catStores path s)).Holds (path ++ s) := by
  have hcopy := h.copy_at (Nat.le_refl _) hs hin
  rwa [List.take_length] at hcopy

theorem PathBuffers.Holds.child (h : m.Holds path) (hplain : Plain component)
    (hin : InBuffers (childStores path component)) :
    (m.after (childStores path component)).Holds (childPath path component) := by
  have hzero : 0 ∉ component := fun hmem =>
    absurd (hplain.2 0 hmem) (by decide)
  rw [childStores] at hin ⊢
  rw [childPath]
  split at hin
  · next hlast =>
      rw [inBuffers_append] at hin
      rw [if_pos hlast, if_pos hlast, after_append]
      exact (h.cat (by decide) hin.1).cat hzero hin.2
  · next hlast =>
      rw [if_neg hlast, if_neg hlast]
      exact h.cat hzero hin

theorem lastSlash_lt {k : Nat} (h : lastSlash path = some k) :
    k < path.length := by
  have hmem := List.mem_of_find?_eq_some h
  rw [List.mem_reverse, List.mem_range] at hmem
  exact hmem

theorem PathBuffers.Holds.parent (h : m.Holds path)
    (hin : InBuffers (parentStores path)) :
    (m.after (parentStores path)).Holds (parentPath path) := by
  have hcut : ∀ n, n ≤ path.length →
      InBuffers (copyStores .currentPath n []) →
      (m.after (copyStores .currentPath n [])).Holds (path.take n) := by
    intro n hn hin
    have hcopy := h.copy_at hn (s := []) (by simp) hin
    rwa [List.append_nil] at hcopy
  rw [parentStores] at hin ⊢
  rw [parentPath]
  split at hin
  · next hlen =>
      rw [if_pos hlen, if_pos hlen]
      cases hslash : lastSlash path with
      | none =>
          rw [hslash] at hin
          exact absurd (hin _ List.mem_cons_self).1 (by decide)
      | some k =>
          rw [hslash] at hin
          cases k with
          | zero => exact hcut 1 (Nat.le_of_lt hlen) hin
          | succ k => exact hcut (k + 1) (Nat.le_of_lt (lastSlash_lt hslash)) hin
  · next hlen =>
      rw [if_neg hlen, if_neg hlen]
      exact h

namespace Fs

variable {fs : Fs} {cs : List Str}

/-- `cd` by what its loop comes to. -/
theorem cd_cases (fs : Fs) (path : Str) :
    (∃ m, (fs.cdStart path).1.cdLoop (components (fs.cdStart path).2) =
        .error m ∧ fs.cd path = fs.errln m) ∨
      (fs.cdStart path).1.cdLoop (components (fs.cdStart path).2) =
        .ok (fs.cd path) := by
  have hempty : ∀ rest : Str, rest.headD 0 = 0 → components rest = [] := by
    intro rest hrest
    cases rest with
    | nil => rw [components]
    | cons x xs =>
        obtain rfl : x = 0 := hrest
        rw [components, if_pos rfl]
  rw [cd, cdStart]
  by_cases habs : path.headD 0 = slash
  · simp only [habs, true_and, if_true]
    split
    · next hrest =>
        rw [hempty _ hrest]
        exact .inr rfl
    · split
      · next m hloop => exact .inl ⟨m, hloop, rfl⟩
      · next hloop => exact .inr hloop
  · simp only [habs, false_and, if_false]
    split
    · next m hloop => exact .inl ⟨m, hloop, rfl⟩
    · next hloop => exact .inr hloop

/-- What a loop that ends in `r` leaves in `current_path`. -/
def pathAfter (old : Str) : Except Str Fs → Str
  | .error _ => old
  | .ok fs => fs.currentPath

theorem holds_cdComponent (h : m.Holds fs.currentPath) (hold : 0 ∉ old)
    (hplain : Plain component)
    (hin : InBuffers (fs.cdComponentStores old component)) :
    (m.after (fs.cdComponentStores old component)).Holds
      (pathAfter old (fs.cdComponent component)) := by
  have hcopied : (m.after (copyStores .component 0 component)).Holds
      fs.currentPath := by
    rw [PathBuffers.Holds, after_copyStores_of_ne m (by decide)]
    exact h
  rw [cdComponentStores, inBuffers_append] at hin
  have hrest := hin.2
  rw [cdComponentStores, PathBuffers.after_append, cdComponent]
  generalize m.after (copyStores .component 0 component) = m at hcopied ⊢
  by_cases hdotdot : component = lit ".."
  · simp only [if_pos hdotdot] at hrest ⊢
    by_cases hparent : fs.getParentCluster ≠ 0
    · simp only [if_pos hparent] at hrest ⊢
      exact hcopied.parent hrest
    · simp only [if_neg hparent]
      exact hcopied
  · simp only [if_neg hdotdot] at hrest ⊢
    by_cases hdot : component = lit "."
    · simp only [if_pos hdot]
      exact hcopied
    · simp only [if_neg hdot] at hrest ⊢
      cases hfind : fs.findFile component with
      | none =>
          simp only [hfind] at hrest
          exact .copy hold hrest
      | some e =>
          simp only [hfind] at hrest
          by_cases hdir : e.isDirectory = true
          · simp only [if_pos hdir] at hrest ⊢
            exact hcopied.child hplain hrest
          · simp only [if_neg hdir] at hrest ⊢
            exact .copy hold hrest

theorem holds_cdLoop (h : m.Holds fs.currentPath) (hold : 0 ∉ old)
    (hcs : ∀ c ∈ cs, Plain c) (hin : InBuffers (fs.cdLoopStores old cs)) :
    (m.after (fs.cdLoopStores old cs)).Holds (pathAfter old (fs.cdLoop cs)) := by
  induction cs generalizing fs m with
  | nil => exact h
  | cons c cs ih =>
      rw [cdLoopStores, inBuffers_append] at hin
      have hround := holds_cdComponent h hold (hcs c List.mem_cons_self) hin.1
      have hrest := hin.2
      rw [cdLoopStores, PathBuffers.after_append, cdLoop]
      cases hc : fs.cdComponent c with
      | error e =>
          rw [hc] at hround
          exact hround
      | ok fs' =>
          rw [hc] at hround
          simp only [hc] at hrest
          exact ih hround (fun d hd => hcs d (List.mem_cons_of_mem c hd)) hrest

/-- The stores of a `cd` that are all inside their buffers leave its path. -/
theorem holds_cd {path : Str} (h : m.Holds fs.currentPath)
    (hin : InBuffers (fs.cdStores path)) :
    (m.after (fs.cdStores path)).Holds (fs.cd path).currentPath := by
  have hcs : ∀ c ∈ components (fs.cdStart path).2, Plain c :=
    fun c hc => plain_of_mem_components hc
  rw [cdStores, inBuffers_append, inBuffers_append] at hin
  have hold : (m.after (copyStores .oldPath 0 fs.currentPath)).Holds
      fs.currentPath := by
    rw [PathBuffers.Holds, after_copyStores_of_ne m (by decide)]
    exact h
  have hstart : ((m.after (copyStores .oldPath 0 fs.currentPath)).after
      (if path.headD 0 = slash then copyStores .currentPath 0 [slash]
        else [])).Holds (fs.cdStart path).1.currentPath := by
    have habs := hin.1.2
    rw [cdStart]
    split at habs
    · next heq =>
        rw [if_pos heq, if_pos heq]
        exact .copy (by decide) habs
    · next hne =>
        rw [if_neg hne, if_neg hne]
        exact hold
  have hloop := holds_cdLoop hstart h.1 hcs hin.2
  rw [cdStores, PathBuffers.after_append, PathBuffers.after_append]
  rcases cd_cases fs path with ⟨e, herr, heq⟩ | hok
  · rw [herr] at hloop
    rw [heq]
    exact hloop
  · rw [hok] at hloop
    exact hloop

end Fs

end TermOS.Storage
