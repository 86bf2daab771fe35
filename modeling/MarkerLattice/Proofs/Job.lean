import Mathlib
import MarkerLattice.Job
import MarkerLattice.Proofs.Pass.Stack

/-! The history of a queue. A job waits until the next update and is completed then, once,
in the order of the pushes. Its result is that of a run on its own: the queue hands nothing
from one job to another, and the stream of a job starts with its seed. -/
namespace MarkerLattice

open RandomStream (fraction)

def RandomSource.fractions : RandomSource → ℕ → Binary32
  | .standard seed => fraction (ChaCha.ofSeed seed)
  | .engine seed => fraction (Congruential.ofSeed seed)

/-- A job sees nothing of its stream but the fractions from the seed on. -/
theorem Job.run_of_fractions {job : Job} {d : Processor}
    (supported : job.dungeon.processor? job.pose = some d) {τ : Type} [RandomStream τ] {t : τ}
    (h : fraction t = job.random.fractions) :
    job.run = ⟨job.label, (d.apply job.model job.markers t).1, true⟩ := by
  rw [run, supported]
  cases source : job.random with
  | standard seed =>
    rw [source] at h
    simp only [d.apply_congr job.markers job.model h]
  | engine seed =>
    rw [source] at h
    simp only [d.apply_congr job.markers job.model h]

namespace JobQueue

inductive Step where
  | push (job : Job)
  | update
  | take

namespace Step

def isUpdate : Step → Bool
  | update => true
  | push _ | take => false

def job? : Step → Option Job
  | push job => some job
  | update | take => none

end Step

def settled (steps : List Step) : List Job :=
  (steps.rdropWhile fun step => !step.isUpdate).filterMap Step.job?

def waiting (steps : List Step) : List Job :=
  (steps.rtakeWhile fun step => !step.isUpdate).filterMap Step.job?

/-- A queue, and all that was taken out of it so far. -/
structure Ledger where
  queue : JobQueue
  taken : List JobResult

namespace Ledger

def step (l : Ledger) : Step → Ledger
  | .push job => { l with queue := l.queue.push job }
  | .update => { l with queue := l.queue.update }
  | .take => ⟨l.queue.take.2, l.taken ++ l.queue.take.1⟩

def ofSteps (steps : List Step) : Ledger := steps.foldl step ⟨.empty, []⟩

end Ledger

variable (steps : List Step)

theorem settled_append_waiting : settled steps ++ waiting steps = steps.filterMap Step.job? := by
  rw [settled, waiting, ← List.filterMap_append, List.rdropWhile_append_rtakeWhile]

theorem settled_update : settled (steps ++ [.update]) = settled steps ++ waiting steps := by
  rw [settled, List.rdropWhile_concat_neg _ _ _ (by decide), settled_append_waiting,
    List.filterMap_append]
  exact List.append_nil _

theorem waiting_update : waiting (steps ++ [.update]) = [] := by
  rw [waiting, List.rtakeWhile_concat_neg _ _ _ (by decide)]
  rfl

theorem settled_concat {step : Step} (h : step.isUpdate = false) :
    settled (steps ++ [step]) = settled steps := by
  rw [settled, List.rdropWhile_concat_pos _ _ _ (by simp [h]), settled]

theorem waiting_concat {step : Step} (h : step.isUpdate = false) :
    waiting (steps ++ [step]) = waiting steps ++ step.job?.toList := by
  rw [waiting, List.rtakeWhile_concat_pos _ _ _ (by simp [h]), List.filterMap_append, waiting]
  cases step <;> rfl

/-- What the steps tell of the ledger. -/
structure Ledger.Accounts (l : Ledger) (steps : List Step) : Prop where
  results : l.taken ++ l.queue.completed = (settled steps).map Job.run
  pending : l.queue.pending = waiting steps

variable {steps} {l : Ledger}

theorem Ledger.Accounts.step (h : l.Accounts steps) (step : Step) :
    (l.step step).Accounts (steps ++ [step]) := by
  cases step with
  | push job =>
    refine ⟨?_, ?_⟩
    · rw [settled_concat steps rfl]
      exact h.results
    · rw [waiting_concat steps rfl, ← h.pending]
      rfl
  | update =>
    refine ⟨?_, ?_⟩
    · rw [settled_update, List.map_append, ← h.results, ← h.pending, List.append_assoc]
      rfl
    · rw [waiting_update]
      rfl
  | take =>
    refine ⟨?_, ?_⟩
    · rw [settled_concat steps rfl, ← h.results]
      exact List.append_nil _
    · rw [waiting_concat steps rfl, ← h.pending]
      exact (List.append_nil _).symm

theorem accounts_ofSteps (steps : List Step) : (Ledger.ofSteps steps).Accounts steps := by
  induction steps using List.reverseRecOn with
  | nil => exact ⟨rfl, rfl⟩
  | append_singleton steps step ih =>
    rw [Ledger.ofSteps, List.foldl_append]
    exact ih.step step

/-- The results taken so far and those that are still there are the runs of the jobs pushed
before the last update, in order and once each; all other jobs wait. A job has the same
result in every history, since no job but itself and no stream but its own has part in it. -/
theorem results_eq_runs (steps : List Step) :
    (Ledger.ofSteps steps).taken ++ (Ledger.ofSteps steps).queue.completed =
        (settled steps).map Job.run ∧
      (Ledger.ofSteps steps).queue.pending = waiting steps ∧
      settled steps ++ waiting steps = steps.filterMap Step.job? ∧
      (∀ (steps' : List Step) (i j : ℕ) (job : Job),
        (settled steps)[i]? = some job → (settled steps')[j]? = some job →
          ((Ledger.ofSteps steps).taken ++ (Ledger.ofSteps steps).queue.completed)[i]? =
            ((Ledger.ofSteps steps').taken ++ (Ledger.ofSteps steps').queue.completed)[j]?) ∧
      ∀ job ∈ settled steps, ∀ d, job.dungeon.processor? job.pose = some d →
        ∀ (τ : Type) [RandomStream τ] (t : τ), fraction t = job.random.fractions →
          job.run = ⟨job.label, (d.apply job.model job.markers t).1, true⟩ := by
  have account := accounts_ofSteps steps
  refine ⟨account.results, account.pending, settled_append_waiting steps,
    fun steps' i j job hi hj => ?_, fun job _ d supported τ _ t h => ?_⟩
  · rw [account.results, (accounts_ofSteps steps').results, List.getElem?_map, List.getElem?_map,
      hi, hj]
  · exact Job.run_of_fractions supported h

def paving (label : String) : Job where
  label
  model := ⟨[Processor.paved]⟩
  dungeon := .grid .one
  pose := .identity
  markers := [Processor.floorTile]
  random := .engine 7

def relay : List Step :=
  [.push (paving "first"), .update, .push (paving "second"), .take, .update, .take,
    .push (paving "third")]

theorem results_eq_runs_relay :
    (Ledger.ofSteps relay).taken ++ (Ledger.ofSteps relay).queue.completed =
        [(paving "first").run, (paving "second").run] ∧
      (Ledger.ofSteps relay).queue.pending = [paving "third"] ∧
      ((Ledger.ofSteps relay).taken ++ (Ledger.ofSteps relay).queue.completed)[1]? =
        (Ledger.ofSteps [.push (paving "second"), .update]).queue.completed[0]? ∧
      (paving "second").run = ⟨"second", ((Processor.mk (.ofPosition .zero) .one).apply
        ⟨[Processor.paved]⟩ [Processor.floorTile]
          (RandomStream.Counted.start (Congruential.ofSeed 7))).1, true⟩ := by
  obtain ⟨results, pending, -, alone, runs⟩ := results_eq_runs relay
  have fresh : fraction (RandomStream.Counted.start (Congruential.ofSeed 7)) =
      (paving "second").random.fractions := RandomStream.Counted.fraction_eq _
  have second : paving "second" ∈ settled relay := .tail _ (.head _)
  exact ⟨results, pending, alone [.push (paving "second"), .update] 1 0 (paving "second") rfl rfl,
    runs _ second _ rfl _ _ fresh⟩

end JobQueue

end MarkerLattice
