import Lineage.Proofs.Toy.Tandem

/-!
# Listeners that keep a journal

What a listener is told in a run is what the same listener writes down if it keeps a journal. The
journal changes nothing else: a run next to a listener with a journal goes as the run next to the
listener itself, and `bare` leaves the journal out again.
-/

namespace Lineage

variable {K : Kinds} {S : Type}

namespace Stage

/-- The stage with a journal in which nothing is written yet. -/
def journaled (stage : Stage K S) : Stage K (S × List (Checkpoint K)) where
  shadow := stage.shadow
  own := (stage.own, [])

/-- The stage without its journal. -/
def bare (stage : Stage K (S × List (Checkpoint K))) : Stage K S where
  shadow := stage.shadow
  own := stage.own.1

end Stage

/-- The listener with a journal of all that it is told, of what it refuses as well. -/
def Listener.journaled (listener : Listener K S) : Listener K (S × List (Checkpoint K)) where
  name := listener.name
  react host checkpoint := fun stage =>
    let (result, after) := (listener.react host checkpoint).run.run stage.bare
    (result, { shadow := after.shadow, own := (after.own, stage.own.2 ++ [checkpoint]) })

theorem Listener.run_journaled (listener : Listener K S) (host : Host K) (c : Checkpoint K)
    (stage : Stage K (S × List (Checkpoint K))) :
    (listener.journaled.react host c).run.run stage =
      let ran := (listener.react host c).run.run stage.bare
      (ran.1, { shadow := ran.2.shadow, own := (ran.2.own, stage.own.2 ++ [c]) }) := rfl

namespace Toy

/-- The state of a program's own listeners, along with a journal. -/
abbrev Journaled (S : Type) : Type := S × List (Checkpoint kinds)

/-- A listener answers the same without its journal. -/
theorem escorts_bare (listener : Listener kinds S) :
    Escorts (fun stage stage' => stage' = stage.bare) (fun _ _ _ => False) listener.journaled
      listener where
  both host c stage stage' same := by
    subst same
    exact .inl ⟨rfl, rfl⟩
  first _ _ _ _ _ ended := ended
  noted _ _ _ stage stage' same := by
    subst same
    rfl
  notedFirst _ _ _ _ _ _ ended := ended

namespace Program

/-- All that the listener is told in a run, whether it refuses it or not. -/
def stream (p : Program) (fuel : Nat) (listener : Listener kinds S) (owned : List Entity)
    (world : World) (stage : Stage kinds S) : List (Checkpoint kinds) :=
  (p.run fuel listener.journaled owned world stage.journaled).2.2.own.2

/-- The journal of a run next to which the run is the same. -/
theorem run_journaled (p : Program) (fuel : Nat) (listener : Listener kinds S)
    (owned : List Entity) (world : World) (stage : Stage kinds S) :
    p.run fuel listener owned world stage =
      let ran := p.run fuel listener.journaled owned world stage.journaled
      (ran.1, ran.2.1, ran.2.2.bare) := by
  have bare : stage = stage.journaled.bare := rfl
  have both := p.run_side_by_side fuel (escorts_bare listener) owned world bare
  revert both
  generalize p.run fuel listener.journaled owned world stage.journaled = ran
  generalize p.run fuel listener owned world stage = plain
  intro both
  cases both with
  | alike same => rw [same]
  | refused ended => exact ended.elim

end Program

end Toy

end Lineage
