import Phrasebook.Localization.Ambient

/-!
Tasks that take turns. A task with a locale is in its scope whenever it has a turn and only then, so
tasks do not see the locale of one another.
-/

set_option autoImplicit false

namespace Phrasebook

/-- A task that notes the locale in effect for a number of turns and then ends. -/
structure Task where
  locale : Option String
  rounds : Nat
  seen : List String := []
  isDone : Bool := false
  deriving DecidableEq, Repr

namespace Task

def sees (task : Task) (ambient : Ambient) : String :=
  match task.locale with
  | some locale => (ambient.enter locale).current
  | none => ambient.current

def turn (ambient : Ambient) (task : Task) : Task :=
  match task.rounds with
  | 0 => { task with isDone := true }
  | rounds + 1 => { task with rounds, seen := task.seen ++ [task.sees ambient] }

/-- The numbers of the tasks that end between two states of all tasks. -/
def endings (before after : List Task) : List Nat :=
  ((before.zip after).zipIdx.filter fun ((old, new), _) => !old.isDone && new.isDone).map (·.2)

/-- Tasks after a number of turns each, with their numbers in the order in which they end. -/
def takeTurns (ambient : Ambient) : Nat → List Task → List Task × List Nat
  | 0, tasks => (tasks, [])
  | turns + 1, tasks =>
    let after := tasks.map (turn ambient)
    let (last, order) := takeTurns ambient turns after
    (last, endings tasks after ++ order)

def interleave (ambient : Ambient) (tasks : List Task) : List Task × List Nat :=
  takeTurns ambient (tasks.foldl (fun most task => max most (task.rounds + 1)) 0) tasks

end Task

end Phrasebook
