import Mathlib
import MarkerLattice.Lattice.Level
import MarkerLattice.Proofs.Lattice.Cells

/-! Ground levels spread breadth first. A generation holds the cells of one
distance from the seeds, in the row-major order of the seeds that decide them,
so the first claim on a cell is the claim of the seed that decides it. -/
namespace MarkerLattice.Level

def distance (a b : Coord) : Nat := (a.x - b.x).natAbs + (a.y - b.y).natAbs

@[simp] theorem distance_self (a : Coord) : distance a a = 0 := by
  simp [distance]

theorem eq_of_distance_eq_zero {a b : Coord} (h : distance a b = 0) : a = b := by
  unfold distance at h
  ext <;> omega

theorem mem_neighbours_iff (u v : Coord) : v ∈ neighbours u ↔ distance v u = 1 := by
  simp only [neighbours, List.mem_cons, List.not_mem_nil, or_false, Coord.ext_iff, distance]
  omega

theorem distance_le_succ {u v : Coord} (h : v ∈ neighbours u) (a : Coord) :
    distance v a ≤ distance u a + 1 := by
  rw [mem_neighbours_iff] at h
  unfold distance at *
  omega

/-- A window is convex: from each of its cells a step inside leads nearer to
any other. -/
theorem exists_step_toward {w : Window} {v a : Coord} {n : Nat} (hv : w.contains v = true)
    (ha : w.contains a = true) (h : distance v a = n + 1) :
    ∃ u, w.contains u = true ∧ v ∈ neighbours u ∧ distance u a = n := by
  simp only [mem_neighbours_iff, Window.contains_iff] at *
  unfold distance at *
  rcases lt_trichotomy v.x a.x with hx | hx | hx
  · exact ⟨⟨v.x + 1, v.y⟩, by dsimp only; omega, by dsimp only; omega, by dsimp only; omega⟩
  · rcases lt_or_gt_of_ne (show v.y ≠ a.y by omega) with hy | hy
    · exact ⟨⟨v.x, v.y + 1⟩, by dsimp only; omega, by dsimp only; omega, by dsimp only; omega⟩
    · exact ⟨⟨v.x, v.y - 1⟩, by dsimp only; omega, by dsimp only; omega, by dsimp only; omega⟩
  · exact ⟨⟨v.x - 1, v.y⟩, by dsimp only; omega, by dsimp only; omega, by dsimp only; omega⟩

/-- The seed that decides the level of a cell: any other one is farther off, or
as far off and later in row-major order. -/
structure Decides (seeds : List Seed) (v : Coord) (seed : Seed) : Prop where
  mem : seed ∈ seeds
  first : ∀ other ∈ seeds, other = seed ∨ distance v seed.1 < distance v other.1 ∨
    distance v seed.1 = distance v other.1 ∧ seed.1.RowMajor other.1

namespace Decides

variable {seeds : List Seed} {u v : Coord} {a b : Seed}

theorem le (h : Decides seeds v a) (hb : b ∈ seeds) : distance v a.1 ≤ distance v b.1 := by
  rcases h.first b hb with rfl | h | h <;> omega

theorem unique (ha : Decides seeds v a) (hb : Decides seeds v b) : a = b := by
  rcases ha.first b hb.mem with h | h | ⟨-, h⟩
  · exact h.symm
  · have := hb.le ha.mem
    omega
  · rcases hb.first a ha.mem with h' | h' | ⟨-, h'⟩
    · exact h'
    · have := ha.le hb.mem
      omega
    · exact absurd h' h.asymm

/-- The cell that a shortest way to the deciding seed leads through is decided
by the same seed. -/
theorem toward (h : Decides seeds v a) (step : v ∈ neighbours u)
    (near : distance u a.1 + 1 = distance v a.1) : Decides seeds u a := by
  refine ⟨h.mem, fun other hother => ?_⟩
  have hle := distance_le_succ step other.1
  rcases h.first other hother with h | h | ⟨h, order⟩
  · exact .inl h
  · omega
  · by_cases heq : distance u a.1 = distance u other.1
    · exact .inr (.inr ⟨heq, order⟩)
    · omega

end Decides

structure Sown (w : Window) (seeds : List Seed) : Prop where
  inside : ∀ seed ∈ seeds, w.contains seed.1 = true
  sorted : seeds.Pairwise fun a b => a.1.RowMajor b.1

namespace Sown

variable {w : Window} {seeds : List Seed}

theorem eq_of_coord_eq (hs : Sown w seeds) {a b : Seed} (ha : a ∈ seeds) (hb : b ∈ seeds)
    (h : a.1 = b.1) : a = b := by
  by_contra hne
  have distinct : seeds.Pairwise fun a b => a.1 ≠ b.1 := hs.sorted.imp Coord.RowMajor.ne
  have : Std.Symm fun a b : Seed => a.1 ≠ b.1 := ⟨fun _ _ h => h.symm⟩
  exact distinct.forall ha hb hne h

theorem decides_self (hs : Sown w seeds) {a : Seed} (ha : a ∈ seeds) :
    Decides seeds a.1 a := by
  refine ⟨ha, fun other hother => ?_⟩
  by_cases h : a.1 = other.1
  · exact .inl (hs.eq_of_coord_eq hother ha h.symm)
  · have : distance a.1 other.1 ≠ 0 := fun h0 => h (eq_of_distance_eq_zero h0)
    simp only [distance_self]
    omega

theorem exists_decides (hs : Sown w seeds) (hne : seeds ≠ []) (v : Coord) :
    ∃ seed, Decides seeds v seed := by
  induction seeds with
  | nil => contradiction
  | cons a rest ih =>
    have later : ∀ other ∈ rest, a.1.RowMajor other.1 := fun _ h =>
      List.rel_of_pairwise_cons hs.sorted h
    by_cases hrest : rest = []
    · exact ⟨a, by simp, by simp [hrest]⟩
    · have tail : Sown w rest :=
        ⟨fun seed h => hs.inside seed (.tail _ h), hs.sorted.of_cons⟩
      obtain ⟨b, hb⟩ := ih tail hrest
      by_cases hle : distance v a.1 ≤ distance v b.1
      · refine ⟨a, by simp, fun other hother => ?_⟩
        rcases List.mem_cons.mp hother with rfl | hother
        · exact .inl rfl
        · have := hb.le hother
          have := later other hother
          by_cases heq : distance v a.1 = distance v other.1
          · exact .inr (.inr ⟨heq, this⟩)
          · omega
      · refine ⟨b, .tail _ hb.mem, fun other hother => ?_⟩
        rcases List.mem_cons.mp hother with rfl | hother
        · omega
        · exact hb.first other hother

end Sown

def SeedLE (seeds : List Seed) (u v : Coord) : Prop :=
  ∀ a b, Decides seeds u a → Decides seeds v b → ¬ b.1.RowMajor a.1

namespace SeedLE

variable {seeds : List Seed} {u v w : Coord} {a : Seed}

theorem refl (seeds : List Seed) (u : Coord) : SeedLE seeds u u := by
  intro a b ha hb h
  exact h.ne (congrArg Prod.fst (hb.unique ha))

theorem of_left (h : SeedLE seeds u w) (hu : Decides seeds u a) (hv : Decides seeds v a) :
    SeedLE seeds v w := by
  intro b c hb hc
  rw [hb.unique hv]
  exact h a c hu hc

theorem of_right (h : SeedLE seeds w u) (hu : Decides seeds u a) (hv : Decides seeds v a) :
    SeedLE seeds w v := by
  intro b c hb hc
  rw [hc.unique hv]
  exact h b a hb hu

end SeedLE

/-- The claims that a generation is still to make: a seed and the cell that it
claims. -/
def pending (generation : List Seed) : List (Seed × Coord) :=
  generation.flatMap fun e => (neighbours e.1).map fun c => (e, c)

theorem claims_eq_map_pending (generation : List Seed) :
    claims generation = (pending generation).map fun p => (p.2, p.1.2) := by
  simp [claims, pending, List.map_flatMap, Function.comp_def]

/-- What holds between generations: cells up to `k` steps off have the level of
the seed that decides them, no other cell has a level, and the generation lists
the cells `k` steps off in the order of their seeds. -/
structure Reached (w : Window) (seeds : List Seed) (k : Nat) (cells : Cells (Option Int))
    (generation : List Seed) : Prop where
  window : cells.window = w
  settled : ∀ v a, w.contains v = true → Decides seeds v a → distance v a.1 ≤ k →
    cells.get? v = some (some a.2)
  vacant : ∀ v a, w.contains v = true → Decides seeds v a → k < distance v a.1 →
    cells.get? v = some none
  complete : ∀ v a, w.contains v = true → Decides seeds v a → distance v a.1 = k →
    (v, a.2) ∈ generation
  sound : ∀ e ∈ generation, w.contains e.1 = true ∧
    ∃ a, Decides seeds e.1 a ∧ distance e.1 a.1 = k ∧ e.2 = a.2
  sorted : generation.Pairwise fun e f => SeedLE seeds e.1 f.1

/-- What holds while a generation makes its claims. `latest` lists the cells
that were claimed so far, the latest in front, and `rest` the claims to come. A
cell `k + 1` steps off that is not claimed yet is claimed in `rest` on behalf of
the seed that decides it. -/
structure Spreading (w : Window) (seeds : List Seed) (k : Nat) (rest : List (Seed × Coord))
    (cells : Cells (Option Int)) (latest : List Seed) : Prop where
  window : cells.window = w
  settled : ∀ v a, w.contains v = true → Decides seeds v a → distance v a.1 ≤ k →
    cells.get? v = some (some a.2)
  vacant : ∀ v a, w.contains v = true → Decides seeds v a → k + 1 < distance v a.1 →
    cells.get? v = some none
  edge : ∀ v a, w.contains v = true → Decides seeds v a → distance v a.1 = k + 1 →
    cells.get? v = some (some a.2) ∧ (v, a.2) ∈ latest ∨
      cells.get? v = some none ∧ ∃ p ∈ rest, p.2 = v ∧ Decides seeds p.1.1 a
  sound : ∀ e ∈ latest, w.contains e.1 = true ∧
    ∃ a, Decides seeds e.1 a ∧ distance e.1 a.1 = k + 1 ∧ e.2 = a.2
  sorted : latest.Pairwise fun e f => SeedLE seeds f.1 e.1
  before : ∀ e ∈ latest, ∀ p ∈ rest, SeedLE seeds e.1 p.1.1
  source : ∀ p ∈ rest, p.2 ∈ neighbours p.1.1 ∧
    ∃ a, Decides seeds p.1.1 a ∧ distance p.1.1 a.1 = k ∧ p.1.2 = a.2
  order : rest.Pairwise fun p q => SeedLE seeds p.1.1 q.1.1

theorem claim_of_vacant {cells : Cells (Option Int)} {latest : List Seed} (e : Seed)
    (h : cells.get? e.1 = some none) :
    claim (cells, latest) e = (cells.set e.1 (some e.2), e :: latest) := by
  simp [claim, h]

theorem claim_of_not_vacant {cells : Cells (Option Int)} {latest : List Seed} (e : Seed)
    (h : cells.get? e.1 ≠ some none) : claim (cells, latest) e = (cells, latest) := by
  unfold claim
  split
  · contradiction
  · rfl

namespace Spreading

variable {w : Window} {seeds : List Seed} {k : Nat} {p : Seed × Coord}
  {rest : List (Seed × Coord)} {cells : Cells (Option Int)} {latest : List Seed}

/-- The first claim on a vacant cell comes from a cell with the same seed. -/
theorem decides_of_vacant (hs : Sown w seeds) (hne : seeds ≠ [])
    (h : Spreading w seeds k (p :: rest) cells latest) (vacant : cells.get? p.2 = some none) :
    ∃ a, Decides seeds p.1.1 a ∧ Decides seeds p.2 a ∧ distance p.2 a.1 = k + 1 ∧
      p.1.2 = a.2 := by
  obtain ⟨step, a, ha, near, level⟩ := h.source p (by simp)
  have inside : w.contains p.2 = true := h.window ▸ Cells.contains_of_get? vacant
  obtain ⟨b, hb⟩ := hs.exists_decides hne p.2
  have upper : distance p.2 a.1 ≤ k + 1 := near ▸ distance_le_succ step a.1
  have lower : k < distance p.2 b.1 := by
    by_contra hle
    rw [h.settled p.2 b inside hb (by omega)] at vacant
    simp at vacant
  have closest := hb.le ha.mem
  have reach : distance p.2 b.1 = k + 1 := by omega
  -- the claim of `b` is still to come, so `b` is not before `a` among the sources
  have later : ¬ b.1.RowMajor a.1 := by
    rcases h.edge p.2 b inside hb reach with ⟨claimed, -⟩ | ⟨-, q, hq, -, hqb⟩
    · simp [vacant] at claimed
    · rcases List.mem_cons.mp hq with rfl | hq
      · rw [hqb.unique ha]
        exact fun h => h.ne rfl
      · exact List.rel_of_pairwise_cons h.order hq a b ha hqb
  have same : a = b := by
    rcases hb.first a ha.mem with heq | hlt | ⟨-, before⟩
    · exact heq
    · omega
    · exact absurd before later
  exact ⟨a, ha, same ▸ hb, same ▸ reach, level⟩

theorem skip (h : Spreading w seeds k (p :: rest) cells latest)
    (taken : cells.get? p.2 ≠ some none) : Spreading w seeds k rest cells latest where
  window := h.window
  settled := h.settled
  vacant := h.vacant
  edge := by
    intro v a inside ha reach
    rcases h.edge v a inside ha reach with claimed | ⟨free, q, hq, rfl, hqa⟩
    · exact .inl claimed
    · rcases List.mem_cons.mp hq with rfl | hq
      · exact absurd free taken
      · exact .inr ⟨free, q, hq, rfl, hqa⟩
  sound := h.sound
  sorted := h.sorted
  before := fun e he q hq => h.before e he q (.tail _ hq)
  source := fun q hq => h.source q (.tail _ hq)
  order := h.order.of_cons

theorem take (hs : Sown w seeds) (hne : seeds ≠ [])
    (h : Spreading w seeds k (p :: rest) cells latest) (vacant : cells.get? p.2 = some none) :
    Spreading w seeds k rest (cells.set p.2 (some p.1.2)) ((p.2, p.1.2) :: latest) := by
  obtain ⟨a, ha, hc, reach, level⟩ := h.decides_of_vacant hs hne vacant
  have inside : w.contains p.2 = true := h.window ▸ Cells.contains_of_get? vacant
  have off {v : Coord} {b : Seed} (hb : Decides seeds v b) (hd : distance v b.1 ≠ k + 1) :
      v ≠ p.2 := by
    rintro rfl
    exact hd (hb.unique hc ▸ reach)
  exact {
    window := by simpa using h.window
    settled := by
      intro v b hv hb hd
      rw [Cells.get?_set, if_neg fun h => off hb (by omega) h.1]
      exact h.settled v b hv hb hd
    vacant := by
      intro v b hv hb hd
      rw [Cells.get?_set, if_neg fun h => off hb (by omega) h.1]
      exact h.vacant v b hv hb hd
    edge := by
      intro v b hv hb hd
      by_cases heq : v = p.2
      · subst heq
        left
        rw [Cells.get?_set, if_pos ⟨rfl, h.window ▸ inside⟩, level, hb.unique hc]
        exact ⟨rfl, by simp⟩
      · rw [Cells.get?_set, if_neg fun h => heq h.1]
        rcases h.edge v b hv hb hd with ⟨claimed, hmem⟩ | ⟨free, q, hq, rfl, hqb⟩
        · exact .inl ⟨claimed, .tail _ hmem⟩
        · rcases List.mem_cons.mp hq with rfl | hq
          · contradiction
          · exact .inr ⟨free, q, hq, rfl, hqb⟩
    sound := by
      intro e he
      rcases List.mem_cons.mp he with rfl | he
      · exact ⟨inside, a, hc, reach, level⟩
      · exact h.sound e he
    sorted := by
      refine List.pairwise_cons.mpr ⟨fun e he => ?_, h.sorted⟩
      exact (h.before e he p (by simp)).of_right ha hc
    before := by
      intro e he q hq
      rcases List.mem_cons.mp he with rfl | he
      · exact SeedLE.of_left (List.rel_of_pairwise_cons h.order hq) ha hc
      · exact h.before e he q (.tail _ hq)
    source := fun q hq => h.source q (.tail _ hq)
    order := h.order.of_cons }

theorem claim_step (hs : Sown w seeds) (hne : seeds ≠ [])
    (h : Spreading w seeds k (p :: rest) cells latest) :
    Spreading w seeds k rest (claim (cells, latest) (p.2, p.1.2)).1
      (claim (cells, latest) (p.2, p.1.2)).2 := by
  by_cases vacant : cells.get? p.2 = some none
  · rw [claim_of_vacant (p.2, p.1.2) vacant]
    exact h.take hs hne vacant
  · rw [claim_of_not_vacant (p.2, p.1.2) vacant]
    exact h.skip vacant

theorem foldl_claim (hs : Sown w seeds) (hne : seeds ≠ [])
    (h : Spreading w seeds k rest cells latest) :
    Spreading w seeds k []
      ((rest.map fun p => (p.2, p.1.2)).foldl claim (cells, latest)).1
      ((rest.map fun p => (p.2, p.1.2)).foldl claim (cells, latest)).2 := by
  induction rest generalizing cells latest with
  | nil => exact h
  | cons p rest ih =>
    rw [List.map_cons, List.foldl_cons]
    exact ih (h.claim_step hs hne)

theorem reached (h : Spreading w seeds k [] cells latest) :
    Reached w seeds (k + 1) cells latest.reverse where
  window := h.window
  settled := by
    intro v a hv ha hd
    rcases Nat.lt_or_eq_of_le hd with hd | hd
    · exact h.settled v a hv ha (by omega)
    · rcases h.edge v a hv ha hd with ⟨claimed, -⟩ | ⟨-, p, hp, -⟩
      · exact claimed
      · cases hp
  vacant := h.vacant
  complete := by
    intro v a hv ha hd
    rcases h.edge v a hv ha hd with ⟨-, hmem⟩ | ⟨-, p, hp, -⟩
    · exact List.mem_reverse.mpr hmem
    · cases hp
  sound := fun e he => h.sound e (List.mem_reverse.mp he)
  sorted := List.pairwise_reverse.mpr h.sorted

end Spreading

namespace Reached

variable {w : Window} {seeds : List Seed} {k : Nat} {cells : Cells (Option Int)}
  {generation : List Seed}

theorem spreading (hs : Sown w seeds) (h : Reached w seeds k cells generation) :
    Spreading w seeds k (pending generation) cells [] where
  window := h.window
  settled := h.settled
  vacant := fun v a hv ha hd => h.vacant v a hv ha (by omega)
  edge := by
    intro v a hv ha hd
    obtain ⟨u, hu, step, near⟩ := exists_step_toward hv (hs.inside a ha.mem) hd
    have hua : Decides seeds u a := ha.toward step (by omega)
    refine .inr ⟨h.vacant v a hv ha (by omega), ((u, a.2), v), ?_, rfl, hua⟩
    simp only [pending, List.mem_flatMap, List.mem_map]
    exact ⟨(u, a.2), h.complete u a hu hua near, v, step, rfl⟩
  sound := by simp
  sorted := .nil
  before := by simp
  source := by
    intro p hp
    simp only [pending, List.mem_flatMap, List.mem_map] at hp
    obtain ⟨e, he, c, hc, rfl⟩ := hp
    exact ⟨hc, (h.sound e he).2⟩
  order := by
    rw [pending, List.pairwise_flatMap]
    constructor
    · intro e _
      rw [List.pairwise_map]
      exact List.pairwise_of_forall fun _ _ => SeedLE.refl _ _
    · refine h.sorted.imp fun {e f} hef => ?_
      intro p hp q hq
      simp only [List.mem_map] at hp hq
      obtain ⟨c, -, rfl⟩ := hp
      obtain ⟨d, -, rfl⟩ := hq
      exact hef

theorem spread_step (hs : Sown w seeds) (hne : seeds ≠ [])
    (h : Reached w seeds k cells generation) :
    Reached w seeds (k + 1) (spread cells generation).1 (spread cells generation).2 := by
  unfold spread
  rw [claims_eq_map_pending]
  exact ((h.spreading hs).foldl_claim hs hne).reached

/-- Once a generation is empty, no cell lies as far off as it, nor farther. -/
theorem lt_of_nil (hs : Sown w seeds) (h : Reached w seeds k cells []) {v : Coord}
    {a : Seed} (hv : w.contains v = true) (ha : Decides seeds v a) : distance v a.1 < k := by
  by_contra hle
  obtain ⟨n, hn⟩ := Nat.exists_eq_add_of_le (Nat.le_of_not_lt hle)
  induction n generalizing v with
  | zero => cases h.complete v a hv ha hn
  | succ n ih =>
    have far : distance v a.1 = k + n + 1 := hn
    obtain ⟨u, hu, step, near⟩ := exists_step_toward hv (hs.inside a ha.mem) far
    exact ih hu (ha.toward step (by omega)) (by omega) near

theorem flood (hs : Sown w seeds) (hne : seeds ≠ [])
    (h : Reached w seeds k cells generation) {v : Coord} {a : Seed}
    (hv : w.contains v = true) (ha : Decides seeds v a) :
    (Level.flood cells generation).get? v = some (some a.2) := by
  fun_induction Level.flood cells generation generalizing k with
  | case1 cells generation settled hspread =>
    have next := h.spread_step hs hne
    rw [hspread] at next
    exact next.settled v a hv ha (next.lt_of_nil hs hv ha).le
  | case2 cells generation claimed seed rest hspread _ ih =>
    have next := h.spread_step hs hne
    rw [hspread] at next
    exact ih next

end Reached

theorem mem_seeds (s : Scene) (c : Coord) (level : Int) :
    (c, level) ∈ seeds s ↔ s.window.contains c = true ∧
      ∃ m, (s.markers ⟨c, .ground⟩).head? = some m ∧
        level = ofHeight s.cellSize.z m.location.z := by
  simp only [seeds, List.mem_filterMap, Window.mem_coords, Option.map_eq_some_iff,
    Prod.mk.injEq]
  constructor
  · rintro ⟨c, hc, m, hm, rfl, rfl⟩
    exact ⟨hc, m, hm, rfl⟩
  · rintro ⟨hc, m, hm, rfl⟩
    exact ⟨c, hc, m, hm, rfl, rfl⟩

theorem sown_seeds (s : Scene) : Sown s.window (seeds s) where
  inside := fun seed h => ((mem_seeds s seed.1 seed.2).mp h).1
  sorted := by
    rw [seeds, List.pairwise_filterMap]
    refine s.window.pairwise_coords.imp fun {c d} hcd => ?_
    intro a ha b hb
    obtain ⟨m, -, rfl⟩ := Option.map_eq_some_iff.mp ha
    obtain ⟨n, -, rfl⟩ := Option.map_eq_some_iff.mp hb
    exact hcd

def sow (cells : Cells (Option Int)) (seeds : List Seed) : Cells (Option Int) :=
  seeds.foldl (fun cells seed => cells.set seed.1 (some seed.2)) cells

@[simp] theorem window_sow (cells : Cells (Option Int)) (seeds : List Seed) :
    (sow cells seeds).window = cells.window := by
  induction seeds generalizing cells with
  | nil => rfl
  | cons a rest ih =>
    rw [sow, List.foldl_cons]
    exact (ih _).trans (Cells.window_set cells _ _)

theorem get?_sow_of_forall_ne (cells : Cells (Option Int)) {seeds : List Seed} {v : Coord}
    (h : ∀ e ∈ seeds, v ≠ e.1) : (sow cells seeds).get? v = cells.get? v := by
  induction seeds generalizing cells with
  | nil => rfl
  | cons a rest ih =>
    rw [sow, List.foldl_cons]
    refine (ih _ fun e he => h e (.tail _ he)).trans ?_
    rw [Cells.get?_set, if_neg fun hv => h a (by simp) hv.1]

theorem get?_sow_of_mem {cells : Cells (Option Int)} {seeds : List Seed}
    (hs : Sown cells.window seeds) {a : Seed} (ha : a ∈ seeds) :
    (sow cells seeds).get? a.1 = some (some a.2) := by
  induction seeds generalizing cells with
  | nil => cases ha
  | cons b rest ih =>
    have tail : Sown (cells.set b.1 (some b.2)).window rest := by
      rw [Cells.window_set]
      exact ⟨fun seed h => hs.inside seed (.tail _ h), hs.sorted.of_cons⟩
    rw [sow, List.foldl_cons]
    rcases List.mem_cons.mp ha with rfl | ha
    · refine (get?_sow_of_forall_ne _ fun e he => ?_).trans ?_
      · exact (List.rel_of_pairwise_cons hs.sorted he).ne
      · rw [Cells.get?_set, if_pos ⟨rfl, hs.inside a (by simp)⟩]
    · exact ih tail ha

theorem reached_sow {w : Window} {seeds : List Seed} (hs : Sown w seeds) :
    Reached w seeds 0 (sow (.fill w none) seeds) seeds where
  window := by simp
  settled := by
    intro v a _ ha hd
    rw [eq_of_distance_eq_zero (Nat.le_zero.mp hd)]
    exact get?_sow_of_mem (by simpa using hs) ha.mem
  vacant := by
    intro v a hv ha hd
    rw [get?_sow_of_forall_ne, Cells.get?_fill, if_pos hv]
    rintro e he rfl
    have := ha.le he
    simp only [distance_self] at this
    omega
  complete := by
    intro v a _ ha hd
    rw [eq_of_distance_eq_zero hd]
    exact ha.mem
  sound := fun e he => ⟨hs.inside e he, e, hs.decides_self he, distance_self _, rfl⟩
  sorted := by
    refine hs.sorted.imp_of_mem fun {e f} he hf hef => ?_
    intro a b ha hb
    rw [ha.unique (hs.decides_self he), hb.unique (hs.decides_self hf)]
    exact hef.asymm

theorem flood_nil (cells : Cells (Option Int)) : flood cells [] = cells := by
  rw [flood]
  rfl

theorem get?_ground {s : Scene} {v : Coord} {a : Seed} (hv : s.window.contains v = true)
    (ha : Decides (seeds s) v a) : (ground s).get? v = some a.2 := by
  have hs := sown_seeds s
  have hne : seeds s ≠ [] := List.ne_nil_of_mem ha.mem
  have := (reached_sow hs).flood hs hne hv ha
  rw [ground, Cells.get?_map]
  exact congrArg (Option.map (·.getD 0)) this

theorem get?_ground_of_seeds_eq_nil {s : Scene} (h : seeds s = []) (c : Coord) :
    (ground s).get? c = if s.window.contains c then some 0 else none := by
  rw [ground, Cells.get?_map, h, List.foldl_nil, flood_nil, Cells.get?_fill]
  split <;> rfl

theorem quadAt_of_flat {ground : Cells Int} {c : Coord} {level : Int}
    (own : (ground.get? c).getD 0 = level)
    (flat : ∀ d, ground.get? d = some level ∨ ground.get? d = none) (mode : EdgeMode) :
    quadAt ground mode c = .replicate level := by
  unfold quadAt
  simp only [own]
  rcases flat (c + ⟨0, -1⟩) with below | below <;>
    rcases flat (c + ⟨-1, 0⟩) with left | left <;>
    rcases flat (c + ⟨-1, -1⟩) with diagonal | diagonal <;>
    simp only [below, left, diagonal] <;> cases mode <;> simp [Quad.replicate]

theorem quadAt_of_seeds_eq_nil {s : Scene} (h : seeds s = []) (mode : EdgeMode) (c : Coord) :
    quadAt (ground s) mode c = .replicate 0 := by
  have zero (d : Coord) : (ground s).get? d = some 0 ∨ (ground s).get? d = none := by
    rw [get?_ground_of_seeds_eq_nil h]
    split <;> simp
  apply quadAt_of_flat _ zero
  rcases zero c with h | h <;> rw [h] <;> rfl

end MarkerLattice.Level

namespace MarkerLattice.Scene

theorem slot?_levels (s : Scene) (mode : EdgeMode) (slot : Slot) :
    (s.levels mode).slot? slot =
      if s.window.contains slot.coord then
        some ((Level.quadAt (Level.ground s) mode slot.coord).get slot.part)
      else none := by
  rw [levels, SlotGrid.slot?, Cells.get?_ofFn]
  split <;> rfl

theorem slot?_levels_ground {s : Scene} (mode : EdgeMode) {v : Coord} {seed : Level.Seed}
    (hv : s.window.contains v = true) (h : Level.Decides (Level.seeds s) v seed) :
    (s.levels mode).slot? ⟨v, .ground⟩ = some seed.2 := by
  have own : (Level.quadAt (Level.ground s) mode v).get .ground =
      ((Level.ground s).get? v).getD 0 := rfl
  rw [slot?_levels, if_pos hv, own, Level.get?_ground hv h, Option.getD_some]

/-- Ground levels are those of the nearest seeds, and of several seeds as near
the first in row-major order. A seed keeps its own level, and without seeds all
levels are zero. -/
theorem levels_spread_from_seeds (s : Scene) (mode : EdgeMode) :
    (∀ c level, (c, level) ∈ Level.seeds s ↔ s.window.contains c = true ∧
      ∃ m, (s.markers ⟨c, .ground⟩).head? = some m ∧
        level = (m.location.z / s.cellSize.z.upper .one).roundHalfUp) ∧
    (Level.seeds s ≠ [] → ∀ v, s.window.contains v = true →
      ∃ seed, Level.Decides (Level.seeds s) v seed ∧
        (s.levels mode).slot? ⟨v, .ground⟩ = some seed.2) ∧
    (∀ seed ∈ Level.seeds s, (s.levels mode).slot? ⟨seed.1, .ground⟩ = some seed.2) ∧
    (Level.seeds s = [] → ∀ slot, s.window.contains slot.coord = true →
      (s.levels mode).slot? slot = some 0) := by
  have hs := Level.sown_seeds s
  refine ⟨Level.mem_seeds s, fun hne v hv => ?_, fun seed hseed => ?_, fun h slot hv => ?_⟩
  · obtain ⟨seed, hseed⟩ := hs.exists_decides hne v
    exact ⟨seed, hseed, slot?_levels_ground mode hv hseed⟩
  · exact slot?_levels_ground mode (hs.inside seed hseed) (hs.decides_self hseed)
  · rw [slot?_levels, if_pos hv, Level.quadAt_of_seeds_eq_nil h]
    cases slot.part <;> rfl

def twoTiles : Scene :=
  let tile (x z : Binary32) : Marker := ⟨0, "Ground", .ofPosition ⟨x, .half, z⟩⟩
  .ofMarkers .one [tile .half .one, tile ⟨0x40900000⟩ ⟨0x40400000⟩] 0

def bare : Scene := .ofMarkers .one [] 0

theorem seeds_twoTiles : Level.seeds twoTiles = [(⟨0, 0⟩, 1), (⟨4, 0⟩, 3)] := by
  decide +kernel

theorem levels_spread_twoTiles :
    (twoTiles.levels .legacy).slot? ⟨⟨2, 0⟩, .ground⟩ = some 1 ∧
    (twoTiles.levels .legacy).slot? ⟨⟨4, 0⟩, .ground⟩ = some 3 ∧
    (bare.levels .legacy).slot? ⟨⟨0, 0⟩, .corner⟩ = some 0 := by
  obtain ⟨-, nearest, own, -⟩ := levels_spread_from_seeds twoTiles .legacy
  obtain ⟨-, -, -, flat⟩ := levels_spread_from_seeds bare .legacy
  rw [seeds_twoTiles] at nearest own
  have west : Level.Decides [(⟨0, 0⟩, 1), (⟨4, 0⟩, 3)] ⟨2, 0⟩ (⟨0, 0⟩, 1) := by
    refine ⟨by simp, fun other h => ?_⟩
    simp only [List.mem_cons, List.not_mem_nil, or_false] at h
    rcases h with rfl | rfl
    · exact .inl rfl
    · exact .inr (.inr ⟨rfl, .inr ⟨rfl, by decide⟩⟩)
  obtain ⟨seed, decides, level⟩ := nearest (by simp) ⟨2, 0⟩ (by decide +kernel)
  refine ⟨?_, own (⟨4, 0⟩, 3) (by simp), flat ?_ _ ?_⟩
  · rw [level, decides.unique west]
  · decide +kernel
  · decide +kernel

end MarkerLattice.Scene
