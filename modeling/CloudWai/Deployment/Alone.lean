import CloudWai.Base.Triple
import CloudWai.Deployment.Routine
import CloudWai.Deployment.System

/-!
# One request alone

A request that nothing goes wrong in, run from a world with nobody else moving: its
sequential meaning (`Prog.eval`), with a rule for a request of the database, and the
rows of `deployments` framed over everything that is no insert, patch or promotion.
-/

namespace CloudWai.Deployment

open Base Queue

/-- Every request is answered, and the unmodelled tables say `away`. -/
def undisturbed (away : Elsewhere) : Oracle where
  fault := .none
  locked _ := false
  engine _ := .error ""
  away := away

/-- One call of a request nothing goes wrong in. -/
def World.serve (away : Elsewhere) (w : World) (c : Call) : Except String c.Ans × World :=
  w.perform ⟨none, false⟩ (undisturbed away) c

variable {w : World} {away : Elsewhere}

/-- A request that the database accepts. -/
theorem eval_must {β : Type} {op : String} {c : StoreCall} {a : c.Ans} {s : Store}
    {f : c.Ans → PlaneProg β} (h : c.run w.now away w.store = (.ok a, s)) :
    ((must op c).bind f).eval (World.serve away) w =
      (f a).eval (World.serve away) { w with store := s } := by
  have hserve : w.serve away (.store c) = (.ok a, { w with store := s }) := by
    show ((c.run w.now away w.store).1, { w with store := (c.run w.now away w.store).2 }) = _
    rw [h]
    rfl
  rw [Prog.eval_bind, must]
  simp only [Prog.eval]
  rw [hserve]
  rfl

theorem ends_must {β : Type} {op : String} {c : StoreCall} {a : c.Ans} {s : Store}
    {f : c.Ans → PlaneProg β} {Q : Except String β → World → Prop}
    (h : c.run w.now away w.store = (.ok a, s))
    (hf : (f a).Ends (World.serve away) Q { w with store := s }) :
    ((must op c).bind f).Ends (World.serve away) Q w := by
  unfold Prog.Ends
  rw [eval_must h]
  exact hf

/-! ## Calls that leave the rows alone -/

/-- A call that leaves the rows of `deployments` alone. -/
def LeavesRows : Call → Prop
  | .store (.insertDeployment _) => False
  | .store (.patchDeployment _) => False
  | .store (.promote ..) => False
  | _ => True

theorem serve_leavesRows {c : Call} (h : LeavesRows c) :
    (w.serve away c).2.store.deployments = w.store.deployments := by
  cases c with
  | queue c =>
    show (w.perform _ _ (.queue c)).2.store.deployments = _
    rw [perform_queue_store]
  | engine row c => rfl
  | store c =>
    show (c.run w.now away w.store).2.deployments = _
    cases c with
    | insertDeployment input => exact absurd h id
    | patchDeployment p => exact absurd h id
    | promote org project row => exact absurd h id
    | insertPreviewTarget org project key branch pullRequest =>
      simp only [StoreCall.run]
      split <;> rfl
    | _ => rfl

theorem leavesRows_onQueue {α : Type} (p : QueueProg DeploymentJobPayload α) :
    (onQueue p).Only LeavesRows := by
  induction p with
  | ret a => trivial
  | raise e => trivial
  | await c k ih => exact ⟨trivial, fun r => ih _⟩

/-- Whatever the outcome, the rows are as they were. -/
theorem ends_leavesRows {α : Type} {p : PlaneProg α} {D : DeploymentsTable}
    (hp : p.Only LeavesRows) (hw : w.store.deployments = D) :
    p.Ends (World.serve away) (fun _ w' => w'.store.deployments = D) w :=
  Prog.ends_of_only hp (fun _ _ hI hS => (serve_leavesRows hS).trans hI) hw

end CloudWai.Deployment
