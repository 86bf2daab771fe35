import Mathlib
import MarkerLattice.Proofs.Random.Draws
import MarkerLattice.Proofs.Random.Shuffle
import MarkerLattice.Random.Congruential

/-! The arrangements that a shuffle can make. The indices of a shuffle are drawn without a
look at the elements. Each settles one position for good, so for distinct elements the
indices can be read off the arrangement, and every arrangement comes from indices. -/
namespace MarkerLattice.RandomStream

variable {σ : Type} [RandomStream σ] {α : Type}

def drawn : ℕ → σ → List ℕ × σ
  | 0, s => ([], s)
  | n + 1, s =>
    let (j, s) := nextIndex (n + 2) s
    let (js, s) := drawn n s
    (j :: js, s)

/-- One index for each position from `n` down to `1`, none above its position. -/
inductive Choices : ℕ → List ℕ → Prop
  | nil : Choices 0 []
  | cons {n j : ℕ} {js : List ℕ} (reached : j ≤ n + 1) (rest : Choices n js) :
      Choices (n + 1) (j :: js)

/-- Settles the positions from `n` down to `1` by given indices. There is no result if one of
them lies outside the array, or if there are too many or too few. -/
def settle? : ℕ → List ℕ → Array α → Option (Array α)
  | 0, [], a => some a
  | n + 1, j :: js, a =>
    if h : n + 1 < a.size ∧ j < a.size then settle? n js (a.swap (n + 1) j h.1 h.2) else none
  | _, _, _ => none

theorem choices_drawn (n : ℕ) (s : σ) : Choices n (drawn n s).1 := by
  induction n generalizing s with
  | zero => exact .nil
  | succ n ih => exact .cons (indexOf_le _ _) (ih _)

theorem Choices.length_eq {n : ℕ} {js : List ℕ} (h : Choices n js) : js.length = n := by
  induction h with
  | nil => rfl
  | cons _ _ ih => rw [List.length_cons, ih]

theorem settle?_cons {n j : ℕ} {js : List ℕ} {a : Array α} (hn : n + 1 < a.size)
    (hj : j < a.size) : settle? (n + 1) (j :: js) a = settle? n js (a.swap (n + 1) j) := by
  rw [settle?, dif_pos ⟨hn, hj⟩]

theorem getElem?_swap_left {a : Array α} {i j : ℕ} (hi : i < a.size) (hj : j < a.size) :
    (a.swap i j)[i]? = some a[j] := by
  rw [Array.getElem?_eq_getElem (by rwa [Array.size_swap]), Array.getElem_swap_left]

theorem getElem?_swap_above {a : Array α} {i j k : ℕ} (hi : i < a.size) (reached : j ≤ i)
    (above : i < k) : (a.swap i j hi (by omega))[k]? = a[k]? := by
  rw [Array.getElem?_swap, if_neg (by omega), if_neg (by omega)]

theorem settle?_drawn {n : ℕ} {a : Array α} (s : σ) (h : n ≤ a.size - 1) :
    settle? n (drawn n s).1 a = some (shuffleFrom n a s).1 ∧
      (drawn n s).2 = (shuffleFrom n a s).2 := by
  induction n generalizing a s with
  | zero => exact ⟨rfl, rfl⟩
  | succ n ih =>
    have hn : n + 1 < a.size := by omega
    have hj : (nextIndex (n + 2) s).1 < a.size := by
      have := indexOf_le (fraction s 0) (n + 1)
      rw [nextIndex_succ]
      omega
    have swapped : a.swapIfInBounds (n + 1) (nextIndex (n + 2) s).1 =
        a.swap (n + 1) (nextIndex (n + 2) s).1 := by
      rw [Array.swapIfInBounds_def, dif_pos hn, dif_pos hj]
    rw [shuffleFrom, drawn]
    simp only [settle?_cons hn hj, swapped]
    exact ih _ (by rw [Array.size_swap]; omega)

section Settled

variable {n : ℕ} {js : List ℕ} {a b : Array α}

theorem Choices.exists_settle? (h : Choices n js) (size : n ≤ a.size - 1) :
    ∃ b, settle? n js a = some b ∧ b.Perm a := by
  induction h generalizing a with
  | nil => exact ⟨a, rfl, .refl a⟩
  | @cons n j js reached _ ih =>
    have hn : n + 1 < a.size := by omega
    have hj : j < a.size := by omega
    obtain ⟨b, settled, perm⟩ := ih (a := a.swap (n + 1) j) (by rw [Array.size_swap]; omega)
    exact ⟨b, (settle?_cons hn hj).trans settled, perm.trans (Array.swap_perm _ _)⟩

theorem Choices.getElem?_settle? (h : Choices n js) (settled : settle? n js a = some b) {k : ℕ}
    (above : n < k) : b[k]? = a[k]? := by
  induction h generalizing a with
  | nil =>
    obtain rfl := Option.some.inj settled
    rfl
  | @cons n j js reached _ ih =>
    rw [settle?] at settled
    split at settled
    next inside =>
      rw [ih settled (by omega), getElem?_swap_above inside.1 reached above]
    next => contradiction

theorem Choices.getElem?_settle?_cons {j : ℕ} (rest : Choices n js) (hn : n + 1 < a.size)
    (hj : j < a.size) (settled : settle? (n + 1) (j :: js) a = some b) :
    b[n + 1]? = some a[j] := by
  rw [settle?_cons hn hj] at settled
  rw [rest.getElem?_settle? settled n.lt_succ_self, getElem?_swap_left hn hj]

theorem Choices.eq_of_settle?_eq {js' : List ℕ} (h : Choices n js) (h' : Choices n js')
    (distinct : a.toList.Nodup) (size : n ≤ a.size - 1) (settled : settle? n js a = some b)
    (settled' : settle? n js' a = some b) : js = js' := by
  induction h generalizing a js' with
  | nil => cases h'; rfl
  | @cons n j js reached rest ih =>
    obtain _ | @⟨_, j', js', reached', rest'⟩ := h'
    have hn : n + 1 < a.size := by omega
    have hj : j < a.size := by omega
    have hj' : j' < a.size := by omega
    have same : a[j] = a[j'] := Option.some.inj <|
      (rest.getElem?_settle?_cons hn hj settled).symm.trans
        (rest'.getElem?_settle?_cons hn hj' settled')
    obtain rfl : j = j' := distinct.getElem_inj_iff.mp same
    rw [settle?_cons hn hj] at settled settled'
    have distinct' : (a.swap (n + 1) j).toList.Nodup :=
      (Array.swap_perm hn hj).toList.nodup_iff.mpr distinct
    rw [ih rest' distinct' (by rw [Array.size_swap]; omega) settled settled']

theorem eq_of_perm_of_agree (perm : b.Perm a) (agree : ∀ k, 0 < k → b[k]? = a[k]?) : b = a := by
  obtain ⟨l⟩ := a
  obtain ⟨l'⟩ := b
  have perm : l'.Perm l := perm.toList
  have agree : ∀ k, l'[k + 1]? = l[k + 1]? := fun k => by simpa using agree (k + 1) k.succ_pos
  cases l with
  | nil => rw [perm.eq_nil]
  | cons x l =>
    cases l' with
    | nil => exact absurd perm.length_eq (by simp)
    | cons x' l' =>
      obtain rfl : l' = l := List.ext_getElem? agree
      have first : [x'].Perm [x] := (List.perm_append_right_iff l').mp perm
      rw [List.singleton_perm_singleton.mp first]

/-- The element that belongs at the highest position is not above it yet, since what is above
has its place. -/
theorem exists_choices_of_perm (distinct : a.toList.Nodup) (size : n ≤ a.size - 1)
    (perm : b.Perm a) (agree : ∀ k, n < k → b[k]? = a[k]?) :
    ∃ js, Choices n js ∧ settle? n js a = some b := by
  induction n generalizing a with
  | zero => exact ⟨[], .nil, congrArg some (eq_of_perm_of_agree perm agree).symm⟩
  | succ n ih =>
    have hn : n + 1 < a.size := by omega
    have hn' : n + 1 < b.size := perm.size_eq ▸ hn
    obtain ⟨j, hj, here⟩ := Array.mem_iff_getElem.mp (perm.mem_iff.mp (Array.getElem_mem hn'))
    have reached : j ≤ n + 1 := by
      by_contra above
      have twice := agree j (by omega)
      rw [Array.getElem?_eq_getElem hj, here,
        Array.getElem?_eq_getElem (perm.size_eq ▸ hj)] at twice
      have distinct' : b.toList.Nodup := perm.toList.nodup_iff.mpr distinct
      have := distinct'.getElem_inj_iff.mp (Option.some.inj twice)
      omega
    have agree' : ∀ k, n < k → b[k]? = (a.swap (n + 1) j)[k]? := by
      intro k above
      rcases Nat.eq_or_lt_of_le (Nat.succ_le_of_lt above) with rfl | higher
      · rw [getElem?_swap_left hn hj, here, Array.getElem?_eq_getElem hn']
      · rw [getElem?_swap_above hn reached higher]
        exact agree k higher
    obtain ⟨js, rest, settled⟩ := ih
      ((Array.swap_perm hn hj).toList.nodup_iff.mpr distinct) (by rw [Array.size_swap]; omega)
      (perm.trans (Array.swap_perm hn hj).symm) agree'
    exact ⟨j :: js, .cons reached rest, (settle?_cons hn hj).trans settled⟩

end Settled

theorem bijOn_settle? {a : Array α} (distinct : a.toList.Nodup) :
    Set.BijOn (fun js => settle? (a.size - 1) js a) {js | Choices (a.size - 1) js}
      (some '' {b | b.Perm a}) := by
  refine ⟨fun js h => ?_, fun js h js' h' same => ?_, ?_⟩
  · obtain ⟨b, settled, perm⟩ := Choices.exists_settle? h le_rfl
    exact ⟨b, perm, settled.symm⟩
  · obtain ⟨b, settled, -⟩ := Choices.exists_settle? h le_rfl
    exact Choices.eq_of_settle?_eq h h' distinct le_rfl settled (same.symm.trans settled)
  · rintro _ ⟨b, perm, rfl⟩
    refine exists_choices_of_perm distinct le_rfl perm fun k above => ?_
    have outside : a.size ≤ k := by omega
    rw [Array.getElem?_eq_none (perm.size_eq ▸ outside), Array.getElem?_eq_none outside]

theorem ncard_perm {a : Array α} (distinct : a.toList.Nodup) :
    {b : Array α | b.Perm a}.ncard = a.size.factorial := by
  classical
  have listed : Array.toList '' {b : Array α | b.Perm a} = a.toList.permutations.toFinset := by
    ext l
    rw [Finset.mem_coe, List.mem_toFinset, List.mem_permutations]
    refine ⟨?_, fun perm => ⟨l.toArray, Array.perm_iff_toList_perm.mpr perm, rfl⟩⟩
    rintro ⟨b, perm, rfl⟩
    exact perm.toList
  rw [← Set.ncard_image_of_injective _ fun _ _ => Array.toList_inj.mp, listed,
    Set.ncard_coe_finset, List.toFinset_card_of_nodup (List.nodup_permutations _ distinct),
    List.length_permutations, Array.length_toList]

/-- A shuffle of any array draws one index for each position but the first, none above its
position, whatever the fractions are, and makes the arrangement that these indices make
without reaching outside. For distinct elements the indices stand for the arrangements one
to one: each of the factorial many comes from one choice and no other. -/
theorem shuffle_arranges :
    (∀ (α : Type) (a : Array α) (s : σ),
      settle? (a.size - 1) (drawn (a.size - 1) s).1 a = some (shuffle a s).1 ∧
      Choices (a.size - 1) (drawn (a.size - 1) s).1 ∧
      (drawn (a.size - 1) s).1.length = a.size - 1 ∧
      (drawn (a.size - 1) s).2 = (shuffle a s).2 ∧ (shuffle a s).2 = skip^[a.size - 1] s ∧
      (shuffle a s).1.Perm a) ∧
    ∀ (α : Type) (a : Array α), a.toList.Nodup →
      Set.BijOn (fun js => settle? (a.size - 1) js a) {js | Choices (a.size - 1) js}
        (some '' {b | b.Perm a}) ∧
      {b : Array α | b.Perm a}.ncard = a.size.factorial := by
  refine ⟨fun α a s => ?_, fun α a distinct => ⟨bijOn_settle? distinct, ncard_perm distinct⟩⟩
  obtain ⟨settled, drawn⟩ := settle?_drawn s (le_refl (a.size - 1))
  have choices := choices_drawn (a.size - 1) s
  exact ⟨settled, choices, choices.length_eq, drawn, shuffle_skip a s, shuffle_perm a s⟩

theorem shuffle_arranges_three :
    {b : Array ℕ | b.Perm #[0, 1, 2]}.ncard = 6 ∧
      ∃! js, Choices 2 js ∧ settle? 2 js #[0, 1, 2] = some #[1, 2, 0] := by
  obtain ⟨bijection, six⟩ := (shuffle_arranges (σ := Congruential)).2 ℕ #[0, 1, 2] (by decide)
  have turned : (#[1, 2, 0] : Array ℕ).Perm #[0, 1, 2] :=
    Array.perm_iff_toList_perm.mpr (by decide)
  obtain ⟨js, choices, settled⟩ := bijection.surjOn ⟨_, turned, rfl⟩
  refine ⟨six, js, ⟨choices, settled⟩, fun js' other => ?_⟩
  exact bijection.injOn other.1 choices (other.2.trans settled.symm)

end MarkerLattice.RandomStream
