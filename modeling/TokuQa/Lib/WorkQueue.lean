import Mathlib.Algebra.BigOperators.Fin
import Mathlib.Algebra.Order.BigOperators.Group.Finset
import Mathlib.Data.Fintype.BigOperators
import Mathlib.Logic.Relation
import TokuQa.Lib.Threads

/-!
# Workers on a shared queue

`n` workers take from one FIFO queue until each has taken a stop item (`none`). A work item
(`some xs`) is a list of units the worker then does one after another; taking, doing a unit
and finishing an item are separate steps, so the workers interleave freely.

The queue is loaded before the workers start: the work, then one stop item for each of them.
For that system

* `Inv`: nothing is lost and nothing is done twice, in any state of any run;
* `progress`: some worker can step until all have stopped;
* `cost_step`: every step costs one, so a run is as long as what it used up;
* `finished`: when all have stopped, each has taken one stop item and everything is done.
-/

set_option autoImplicit false

namespace TokuQa.Lib.WorkQueue

inductive Worker (ι : Type) where
  | idle
  | busy (todo : List ι)
  | stopped

structure State (n : Nat) (ι : Type) where
  queue : List (Option (List ι))
  worker : Fin n → Worker ι
  /-- The units done so far, with the worker that did each. -/
  log : List (Fin n × ι)
  /-- The stop items each worker has taken. -/
  stops : Fin n → Nat

variable {n : Nat} {ι : Type}

def start (n : Nat) (queue : List (Option (List ι))) : State n ι :=
  ⟨queue, fun _ => .idle, [], fun _ => 0⟩

/-- The workers' steps, in any order. -/
inductive Step : State n ι → State n ι → Prop where
  | take {s : State n ι} {w : Fin n} {xs : List ι} {q : List (Option (List ι))}
      (hq : s.queue = some xs :: q) (hw : s.worker w = .idle) :
      Step s { s with queue := q, worker := Function.update s.worker w (.busy xs) }
  | work {s : State n ι} {w : Fin n} {x : ι} {xs : List ι} (hw : s.worker w = .busy (x :: xs)) :
      Step s { s with worker := Function.update s.worker w (.busy xs), log := s.log ++ [(w, x)] }
  | finish {s : State n ι} {w : Fin n} (hw : s.worker w = .busy []) :
      Step s { s with worker := Function.update s.worker w .idle }
  | stop {s : State n ι} {w : Fin n} {q : List (Option (List ι))}
      (hq : s.queue = none :: q) (hw : s.worker w = .idle) :
      Step s { s with queue := q, worker := Function.update s.worker w .stopped, stops :=
        Function.update s.stops w (s.stops w + 1) }

abbrev Reaches : State n ι → State n ι → Prop := Relation.ReflTransGen Step

def AllStopped (s : State n ι) : Prop := ∀ w, s.worker w = .stopped

/-- The queue of a system that has its work and one stop item per worker. -/
def loaded (n : Nat) (items : List (List ι)) : List (Option (List ι)) :=
  items.map some ++ List.replicate n none

/-! ## Sums over the workers -/

def Worker.todo : Worker ι → Multiset ι
  | .busy xs => xs
  | _ => 0

def Worker.running : Worker ι → Nat
  | .stopped => 0
  | _ => 1

@[simp] theorem Worker.todo_idle : (Worker.idle : Worker ι).todo = 0 := rfl
@[simp] theorem Worker.todo_busy (xs : List ι) : (Worker.busy xs).todo = (xs : Multiset ι) := rfl
@[simp] theorem Worker.todo_stopped : (Worker.stopped : Worker ι).todo = 0 := rfl
@[simp] theorem Worker.running_idle : (Worker.idle : Worker ι).running = 1 := rfl
@[simp] theorem Worker.running_busy (xs : List ι) : (Worker.busy xs).running = 1 := rfl
@[simp] theorem Worker.running_stopped : (Worker.stopped : Worker ι).running = 0 := rfl

/-- A worker that goes on running leaves the stopped ones as they were. -/
theorem stopped_of_update {g : Fin n → Worker ι} {w : Fin n} {a : Worker ι} (ha : a ≠ .stopped)
    (h : ∃ v, Function.update g w a v = .stopped) : ∃ v, g v = .stopped := by
  obtain ⟨v, hv⟩ := h
  by_cases hvw : v = w
  · subst hvw
    rw [Function.update_self] at hv
    exact absurd hv ha
  · rw [Function.update_of_ne hvw] at hv
    exact ⟨v, hv⟩

/-! ## The invariant -/

/-- What holds in every state, of the units `all` that were loaded and the work items and
stop items still in the queue. -/
structure Inv (all : Multiset ι) (items : List (List ι)) (k : Nat) (s : State n ι) : Prop where
  /-- The stop items are behind the work. -/
  queue : s.queue = items.map some ++ List.replicate k none
  /-- There is one for each worker that still runs. -/
  running : k = ∑ w, (s.worker w).running
  /-- No worker stops while work is left. -/
  drained : (∃ w, s.worker w = .stopped) → items = []
  /-- Every unit is done, in hand, or in the queue. -/
  units : ((s.log.map Prod.snd : List ι) : Multiset ι) + ∑ w, (s.worker w).todo +
    (items.flatten : List ι) = all
  /-- A worker runs until its one stop item. -/
  stops : ∀ w, s.stops w + (s.worker w).running = 1

theorem inv_start (items : List (List ι)) :
    Inv (items.flatten : Multiset ι) items n (start n (loaded n items)) where
  queue := rfl
  running := by simp [start]
  drained := by
    rintro ⟨w, hw⟩
    cases hw
  units := by simp [start]
  stops := fun _ => rfl

variable {all : Multiset ι} {items : List (List ι)} {k : Nat} {s s' : State n ι}

/-- The parts of the invariant that a worker's move from one running state to another keeps. -/
theorem Inv.move (h : Inv all items k s) {w : Fin n} {a : Worker ι}
    (hw : (s.worker w).running = 1) (ha : a.running = 1) :
    k = ∑ v, (Function.update s.worker w a v).running ∧
      ((∃ v, Function.update s.worker w a v = .stopped) → items = []) ∧
      ∀ v, s.stops v + (Function.update s.worker w a v).running = 1 := by
  have hsum := sum_update Worker.running s.worker w a
  have hrunning := h.running
  refine ⟨by omega, fun hv => ?_, fun v => ?_⟩
  · refine h.drained (stopped_of_update ?_ hv)
    rintro rfl
    cases ha
  · have hv := h.stops v
    by_cases hvw : v = w
    · subst hvw
      rw [Function.update_self]
      omega
    · rw [Function.update_of_ne hvw]
      exact hv

/-- The parts that change when a worker takes its stop item. -/
theorem Inv.take_stop (h : Inv all items k s) {w : Fin n} (hw : s.worker w = .idle) :
    k = ∑ v, (Function.update s.worker w .stopped v).running + 1 ∧
      ∀ v, Function.update s.stops w (s.stops w + 1) v +
        (Function.update s.worker w .stopped v).running = 1 := by
  have hsum := sum_update Worker.running s.worker w .stopped
  have hrunning := h.running
  rw [hw, Worker.running_idle, Worker.running_stopped] at hsum
  refine ⟨by omega, fun v => ?_⟩
  have hv := h.stops v
  by_cases hvw : v = w
  · subst hvw
    rw [hw, Worker.running_idle] at hv
    rw [Function.update_self, Function.update_self, Worker.running_stopped]
    omega
  · rw [Function.update_of_ne hvw, Function.update_of_ne hvw]
    exact hv

theorem Inv.step (h : Inv all items k s) (hstep : Step s s') :
    ∃ items' k', Inv all items' k' s' := by
  have hqueue := h.queue
  have hunits := h.units
  cases hstep with
  | @take w xs q hq hw =>
    rw [hqueue] at hq
    -- the units of the first item move from the queue to the worker
    have htodo := sum_update Worker.todo s.worker w (.busy xs)
    obtain ⟨hrunning, hdrained, hstops⟩ := h.move (w := w) (a := .busy xs) (by rw [hw]; rfl) rfl
    cases items with
    | nil => cases k <;> simp [List.replicate_succ] at hq
    | cons ys items' =>
      simp only [List.map_cons, List.cons_append, List.cons.injEq, Option.some.injEq] at hq
      obtain ⟨rfl, rfl⟩ := hq
      refine ⟨items', k, rfl, hrunning, fun hv => ?_, ?_, hstops⟩
      · exact absurd (hdrained hv) (by simp)
      · rw [hw, Worker.todo_idle, add_zero, Worker.todo_busy] at htodo
        rw [← hunits, htodo, List.flatten_cons, ← Multiset.coe_add]
        abel
  | @work w x xs hw =>
    have htodo := sum_update Worker.todo s.worker w (.busy xs)
    obtain ⟨hrunning, hdrained, hstops⟩ := h.move (w := w) (a := .busy xs) (by rw [hw]; rfl) rfl
    refine ⟨items, k, hqueue, hrunning, hdrained, ?_, hstops⟩
    -- one unit moves from the worker to the log
    have hx : ((x :: xs : List ι) : Multiset ι) = {x} + (xs : Multiset ι) := by
      rw [Multiset.singleton_add, Multiset.cons_coe]
    rw [hw, Worker.todo_busy, Worker.todo_busy, hx, ← add_assoc] at htodo
    have hcancel := add_right_cancel htodo
    rw [← hunits, ← hcancel, List.map_append, ← Multiset.coe_add, List.map_cons, List.map_nil,
      Multiset.coe_singleton]
    abel
  | @finish w hw =>
    have htodo := sum_update Worker.todo s.worker w .idle
    obtain ⟨hrunning, hdrained, hstops⟩ := h.move (w := w) (a := .idle) (by rw [hw]; rfl) rfl
    refine ⟨items, k, hqueue, hrunning, hdrained, ?_, hstops⟩
    rw [hw, Worker.todo_busy, Worker.todo_idle, Multiset.coe_nil, add_zero, add_zero] at htodo
    rw [← hunits, htodo]
  | @stop w q hq hw =>
    rw [hqueue] at hq
    have htodo := sum_update Worker.todo s.worker w .stopped
    -- a stop item in front means that no work is left behind it
    obtain ⟨hrunning, hstops⟩ := h.take_stop hw
    rw [hw, Worker.todo_idle, Worker.todo_stopped, add_zero, add_zero] at htodo
    cases items with
    | cons ys items' => simp at hq
    | nil =>
      cases k with
      | zero => simp at hq
      | succ k' =>
        simp only [List.map_nil, List.nil_append, List.replicate_succ, List.cons.injEq,
          true_and] at hq
        refine ⟨[], k', hq.symm, Nat.succ.inj hrunning, fun _ => rfl, ?_, hstops⟩
        rw [← hunits, htodo]

/-- **Nothing is lost and nothing is doubled**, in any state the workers can reach. -/
theorem reaches_inv (hr : Reaches (start n (loaded n items)) s) :
    ∃ items' k, Inv (items.flatten : Multiset ι) items' k s := by
  induction hr with
  | refl => exact ⟨items, n, inv_start items⟩
  | tail _ hstep ih =>
    obtain ⟨items', k, h⟩ := ih
    exact h.step hstep

/-! ## Progress and the end of a run -/

/-- **No worker is left waiting**: a worker that still runs finds an item. -/
theorem progress (hr : Reaches (start n (loaded n items)) s) :
    AllStopped s ∨ ∃ s', Step s s' := by
  obtain ⟨items', k, h⟩ := reaches_inv hr
  by_cases hall : AllStopped s
  · exact Or.inl hall
  · right
    obtain ⟨w, hw⟩ := not_forall.mp hall
    cases hstate : s.worker w with
    | stopped => exact absurd hstate hw
    | busy xs =>
      cases xs with
      | nil => exact ⟨_, Step.finish hstate⟩
      | cons x xs => exact ⟨_, Step.work hstate⟩
    | idle =>
      have hpos : 0 < k := by
        rw [h.running]
        exact Finset.sum_pos' (fun v _ => Nat.zero_le _) ⟨w, Finset.mem_univ w, by simp [hstate]⟩
      have hqueue := h.queue
      cases items' with
      | cons xs rest => exact ⟨_, Step.take hqueue hstate⟩
      | nil =>
        obtain ⟨k', rfl⟩ : ∃ k', k = k' + 1 := ⟨k - 1, by omega⟩
        rw [List.replicate_succ] at hqueue
        exact ⟨_, Step.stop hqueue hstate⟩

/-- **At the end** each worker has taken one stop item, and every unit was done once. -/
theorem finished (hn : 0 < n) (hr : Reaches (start n (loaded n items)) s) (hs : AllStopped s) :
    (s.log.map Prod.snd).Perm items.flatten ∧ ∀ w, s.stops w = 1 := by
  obtain ⟨items', k, h⟩ := reaches_inv hr
  have hempty : items' = [] := h.drained ⟨⟨0, hn⟩, hs _⟩
  have hunits := h.units
  have htodo : ∑ w, (s.worker w).todo = 0 := Finset.sum_eq_zero fun w _ => by rw [hs w]; rfl
  refine ⟨?_, fun w => ?_⟩
  · rw [htodo, hempty, List.flatten_nil, Multiset.coe_nil, add_zero, add_zero] at hunits
    exact Multiset.coe_eq_coe.mp hunits
  · have hw := h.stops w
    rw [hs w, Worker.running_stopped] at hw
    omega

/-! ## The length of a run -/

def Worker.cost : Worker ι → Nat
  | .idle => 1
  | .busy xs => xs.length + 2
  | .stopped => 0

@[simp] theorem Worker.cost_idle : (Worker.idle : Worker ι).cost = 1 := rfl
@[simp] theorem Worker.cost_busy (xs : List ι) : (Worker.busy xs).cost = xs.length + 2 := rfl
@[simp] theorem Worker.cost_stopped : (Worker.stopped : Worker ι).cost = 0 := rfl

def itemCost : Option (List ι) → Nat
  | some xs => xs.length + 2
  | none => 0

/-- The steps still to be made from a state. -/
def cost (s : State n ι) : Nat := (s.queue.map itemCost).sum + ∑ w, (s.worker w).cost

theorem cost_step (hstep : Step s s') : cost s = cost s' + 1 := by
  unfold cost
  cases hstep with
  | @take w xs q hq hw =>
    have hsum := sum_update Worker.cost s.worker w (.busy xs)
    rw [hw, Worker.cost_idle, Worker.cost_busy] at hsum
    rw [hq, List.map_cons, List.sum_cons, itemCost]
    dsimp only
    omega
  | @work w x xs hw =>
    have hsum := sum_update Worker.cost s.worker w (.busy xs)
    rw [hw, Worker.cost_busy, Worker.cost_busy, List.length_cons] at hsum
    dsimp only
    omega
  | @finish w hw =>
    have hsum := sum_update Worker.cost s.worker w .idle
    rw [hw, Worker.cost_busy, Worker.cost_idle, List.length_nil] at hsum
    dsimp only
    omega
  | @stop w q hq hw =>
    have hsum := sum_update Worker.cost s.worker w .stopped
    rw [hw, Worker.cost_idle, Worker.cost_stopped] at hsum
    rw [hq, List.map_cons, List.sum_cons, itemCost]
    dsimp only
    omega

/-- **Runs end.** There is no infinite run. -/
theorem wellFounded_step : WellFounded fun s' s : State n ι => Step s s' := by
  have hsub : Subrelation (fun s' s : State n ι => Step s s') (InvImage (· < ·) cost) := by
    intro s' s hstep
    have hcost := cost_step hstep
    exact Nat.lt_of_lt_of_eq (Nat.lt_succ_self _) hcost.symm
  exact hsub.wf (InvImage.wf cost Nat.lt_wfRel.wf)

/-- Some run stops all workers. -/
theorem exists_finished (items : List (List ι)) :
    ∃ s : State n ι, Reaches (start n (loaded n items)) s ∧ AllStopped s := by
  have hfrom : ∀ s : State n ι, Reaches (start n (loaded n items)) s →
      ∃ s', Reaches (start n (loaded n items)) s' ∧ AllStopped s' := by
    intro s
    induction s using wellFounded_step.induction with
    | _ s ih =>
      intro hr
      rcases progress hr with hall | ⟨s', hstep⟩
      · exact ⟨s, hr, hall⟩
      · exact ih s' hstep (hr.tail hstep)
  exact hfrom _ Relation.ReflTransGen.refl

end TokuQa.Lib.WorkQueue
