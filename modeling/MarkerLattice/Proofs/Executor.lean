import Mathlib
import MarkerLattice.Executor
import MarkerLattice.Proofs.Lattice.Names

/-! Executors keep sets of names. All that an executor answers follows from the names on
each slot, whatever poses its markers have and whichever of them are left out as
repetitions. -/
namespace MarkerLattice

def Effect.onNameSet : Effect → Finset String → Finset String
  | .emit e => insert e.name
  | .remove name => (·.erase name)

/-- The names on each slot, and the slot that is asked about. There is nothing outside the
window. -/
structure NameStore where
  window : Window
  current : Slot
  names : Slot → Finset String
  outside : ∀ slot, window.contains slot.coord = false → names slot = ∅

namespace NameStore

def write (st : NameStore) (f : Finset String → Finset String) : NameStore :=
  if inside : st.window.contains st.current.coord = true then
    { st with
      names := Function.update st.names st.current (f (st.names st.current))
      outside := fun slot h => by
        have other : slot ≠ st.current := fun same => by simp [same, inside] at h
        rw [Function.update_of_ne other, st.outside slot h] }
  else st

def call (st : NameStore) : Executor.Call → Option Bool × NameStore
  | .stand stance => (none, { st with current := stance.slot })
  | .contains name => (some (name ∈ st.names st.current), st)
  | .perform effect => (none, st.write effect.onNameSet)

def run : NameStore → List Executor.Call → List Bool × NameStore := Executor.takeAll call

theorem ext_names {st st' : NameStore} (window : st.window = st'.window)
    (current : st.current = st'.current) (names : ∀ slot, st.names slot = st'.names slot) :
    st = st' := by
  obtain ⟨w, c, n, h⟩ := st
  obtain ⟨w', c', n', h'⟩ := st'
  obtain rfl : n = n' := funext names
  simp_all

theorem names_write (st : NameStore) (f : Finset String → Finset String) (slot : Slot) :
    (st.write f).names slot =
      if slot = st.current ∧ st.window.contains slot.coord = true then f (st.names slot)
      else st.names slot := by
  unfold write
  by_cases here : slot = st.current
  · subst here
    split
    next inside => simp [inside]
    next outside => simp [outside]
  · split
    next => simp [here]
    next => simp [here]

@[simp] theorem window_write (st : NameStore) (f : Finset String → Finset String) :
    (st.write f).window = st.window := by
  unfold write
  split <;> rfl

@[simp] theorem current_write (st : NameStore) (f : Finset String → Finset String) :
    (st.write f).current = st.current := by
  unfold write
  split <;> rfl

end NameStore

namespace MarkerList

def names (l : MarkerList) : Finset String := (l.map Marker.name).toFinset

theorem mem_names {l : MarkerList} {name : String} :
    name ∈ l.names ↔ l.hasName name = true := by
  simp [names, hasName]

theorem names_change (e : Effect) (id : Int32) (pose : Emission → Pose Binary32)
    (l : MarkerList) : (e.change id pose l).names = e.onNameSet l.names := by
  ext name
  rw [mem_names, hasName_change]
  cases e with
  | emit e =>
    simp only [Effect.onNames, Effect.onNameSet, Finset.mem_insert, Bool.or_eq_true, beq_iff_eq,
      mem_names, or_comm]
  | remove gone =>
    simp only [Effect.onNames, Effect.onNameSet, Finset.mem_erase, Bool.and_eq_true, bne_iff_ne,
      mem_names, and_comm]

end MarkerList

namespace Executor

variable (x : Executor)

def store : NameStore where
  window := x.scene.window
  current := x.stance.slot
  names slot := (x.scene.markers slot).names
  outside slot h := by
    rw [Scene.markers_of_not_contains h]
    rfl

/-- The markers `old` of a slot, and what a call on the slot `here` makes of them: those
that it does not remove stay in their order, and at most one comes behind them. -/
def Continues (c : Call) (here slot : Slot) (old new : MarkerList) : Prop :=
  ∃ fresh : MarkerList,
    new = (old.filter fun m => ¬ (slot = here ∧ c = .perform (.remove m.name))) ++ fresh ∧
      fresh.length ≤ 1 ∧
      ∀ m ∈ fresh, slot = here ∧ ∃ e, c = .perform (.emit e) ∧ m.name = e.name

section Continues

variable {c : Call} {here slot : Slot} (l : MarkerList)

theorem continues_of_stays (h : ∀ m ∈ l, slot = here → c ≠ .perform (.remove m.name)) :
    Continues c here slot l l := by
  have all : (l.filter fun m => ¬ (slot = here ∧ c = .perform (.remove m.name))) = l := by
    simpa only [List.filter_eq_self, decide_eq_true_eq, not_and] using h
  exact ⟨[], by rw [all, List.append_nil], by simp, by simp⟩

theorem continues_change (e : Effect) (id : Int32) (pose : Emission → Pose Binary32) :
    Continues (.perform e) slot slot l (e.change id pose l) := by
  cases e with
  | emit e =>
    rcases MarkerList.add_eq l ⟨id, e.name, pose e⟩ with same | grown
    · change Continues _ slot slot l (l.add ⟨id, e.name, pose e⟩)
      rw [same]
      exact continues_of_stays l (by simp)
    · exact ⟨[⟨id, e.name, pose e⟩], by simp [Effect.change, grown], by simp, by simp⟩
  | remove name => exact ⟨[], by simp [Effect.change, MarkerList.remove, eq_comm], by simp, by simp⟩

end Continues

theorem continues_call (c : Call) (slot : Slot) : Continues c x.stance.slot slot
    (x.scene.markers slot) ((x.call c).2.scene.markers slot) := by
  cases c with
  | stand stance => exact continues_of_stays _ (by simp)
  | contains name => exact continues_of_stays _ (by simp)
  | perform e =>
    have after : (x.call (.perform e)).2.scene.markers slot = _ :=
      x.scene.markers_perform x.levels x.stance e slot
    rw [after]
    split
    next own => exact own.1 ▸ continues_change _ e _ _
    next away =>
      refine continues_of_stays _ fun m hm here => absurd ?_ away
      exact ⟨here, Scene.contains_of_mem_markers hm⟩

theorem store_call (c : Call) :
    (x.call c).1 = (x.store.call c).1 ∧ (x.call c).2.store = (x.store.call c).2 := by
  cases c with
  | stand stance => exact ⟨rfl, rfl⟩
  | contains name =>
    refine ⟨?_, rfl⟩
    simp [call, NameStore.call, store, MarkerList.mem_names, Scene.contains]
  | perform e =>
    refine ⟨rfl, NameStore.ext_names ?_ ?_ fun slot => ?_⟩
    · simp [call, NameStore.call, store]
    · simp [call, NameStore.call, store]
    · change (Scene.markers (Scene.perform x.levels x.stance x.scene e) slot).names =
        (x.store.write e.onNameSet).names slot
      rw [NameStore.names_write, Scene.markers_perform, apply_ite MarkerList.names,
        MarkerList.names_change]
      rfl

/-- Steps that a view carries over to steps of another kind give the same answers as
those, over any calls. -/
theorem takeAll_of_step {σ τ : Type} {step : σ → Call → Option Bool × σ}
    {step' : τ → Call → Option Bool × τ} {view : σ → τ}
    (h : ∀ x c, (step x c).1 = (step' (view x) c).1 ∧ view (step x c).2 = (step' (view x) c).2)
    (x : σ) (calls : List Call) :
    (takeAll step x calls).1 = (takeAll step' (view x) calls).1 ∧
      view (takeAll step x calls).2 = (takeAll step' (view x) calls).2 := by
  induction calls generalizing x with
  | nil => exact ⟨rfl, rfl⟩
  | cons c rest ih =>
    obtain ⟨answer, after⟩ := h x c
    obtain ⟨answers, last⟩ := ih (step x c).2
    simp only [takeAll, ← answer, ← after, answers, last, and_self]

/-- An executor answers any calls as a store of names does that starts with the names on
its slots, and every call keeps the order of the markers on every slot. -/
theorem answers_by_names (calls : List Call) :
    (x.run calls).1 = (x.store.run calls).1 ∧
      (x.run calls).2.store = (x.store.run calls).2 ∧
      ∀ (c : Call) (slot : Slot), Continues c (x.run calls).2.stance.slot slot
        ((x.run calls).2.scene.markers slot) (((x.run calls).2.call c).2.scene.markers slot) := by
  obtain ⟨answers, after⟩ := takeAll_of_step store_call x calls
  exact ⟨answers, after, (x.run calls).2.continues_call⟩

end Executor

end MarkerLattice
