/-
**Running a program to its end.**

* `Engine.after` — the engine after a number of steps, and `Engine.reports` what they report.
* `Engine.follow` — steps until the run is over, at most a given number of times, and hands every
  notice to an observer.
* `Engine.run` — follows a run to its end. With a budget there always is one; without, a run is
  given up when its steps no longer count in 64 bits.
* `Engine.exists_after_of_follow` — a run that has been followed to its end is the engine after some
  number of steps.
-/

import Asm16.Engine
import Asm16.Numeral

namespace Asm16

namespace Engine

/-- The engine after `count` steps. -/
def after (engine : Engine) : Nat → Engine
  | 0 => engine
  | count + 1 => engine.step.1.after count

/-- What the next `count` steps report, in order. -/
def reports (engine : Engine) : Nat → List Notice
  | 0 => []
  | count + 1 => engine.step.2 ++ engine.step.1.reports count

/-- The engine at the end of its run and what an observer has seen by then, if the run is over
after at most `limit` steps. -/
def follow {σ : Type} (observe : σ → Notice → σ) : Nat → Engine → σ → Option (Engine × σ)
  | 0, engine, seen => if engine.status = .running then none else some (engine, seen)
  | limit + 1, engine, seen =>
    if engine.status = .running then
      let next := engine.step
      follow observe limit next.1 (next.2.foldl observe seen)
    else some (engine, seen)

/-- The number of steps after which a run is over or given up: one more than the instructions left
in the budget, or as many as a counter of 64 bits tells apart. -/
def stepLimit (engine : Engine) : Nat :=
  match engine.budget with
  | some budget => budget - engine.steps + 1
  | none => Numeral.largest64

/-- The engine at the end of its run, and what an observer has seen by then. -/
def run {σ : Type} (observe : σ → Notice → σ) (engine : Engine) (seen : σ) :
    Option (Engine × σ) :=
  follow observe engine.stepLimit engine seen

/-- The engine at the end of its run. -/
def finish (engine : Engine) : Option Engine :=
  (engine.run (fun seen _ => seen) ()).map Prod.fst

/-! ### Runs as repeated steps -/

/-- Steps can be made in two parts. -/
theorem after_add (engine : Engine) (first second : Nat) :
    engine.after (first + second) = (engine.after first).after second := by
  induction first generalizing engine with
  | zero => simp [after]
  | succ first ih => rw [Nat.succ_add, after, after, ih]

/-- The reports of two parts follow each other. -/
theorem reports_add (engine : Engine) (first second : Nat) :
    engine.reports (first + second) =
      engine.reports first ++ (engine.after first).reports second := by
  induction first generalizing engine with
  | zero => simp [after, reports]
  | succ first ih => rw [Nat.succ_add, reports, reports, after, ih, List.append_assoc]

/-- No number of steps changes a run that is over. -/
theorem after_of_not_running {engine : Engine} (stopped : engine.status ≠ .running) (count : Nat) :
    engine.after count = engine := by
  induction count with
  | zero => rfl
  | succ count ih => rw [after, step_of_not_running stopped, ih]

/-- Following a run leads to the engine after some number of steps within the limit, with which the
run is over, and hands the observer what those steps report. -/
theorem exists_after_of_follow {σ : Type} (observe : σ → Notice → σ) (limit : Nat)
    (engine final : Engine) (seen last : σ)
    (ended : follow observe limit engine seen = some (final, last)) :
    ∃ count ≤ limit, final = engine.after count ∧
      last = (engine.reports count).foldl observe seen ∧ final.status ≠ .running := by
  induction limit generalizing engine seen with
  | zero =>
    unfold follow at ended
    split at ended
    · cases ended
    · next stopped =>
      cases ended
      exact ⟨0, Nat.le_refl _, rfl, rfl, stopped⟩
  | succ limit ih =>
    unfold follow at ended
    split at ended
    · obtain ⟨count, bound, final_eq, last_eq, stopped⟩ := ih _ _ ended
      refine ⟨count + 1, Nat.succ_le_succ bound, final_eq, ?_, stopped⟩
      rw [last_eq, reports, List.foldl_append]
    · next stopped =>
      cases ended
      exact ⟨0, Nat.zero_le _, rfl, rfl, stopped⟩

end Engine

end Asm16
