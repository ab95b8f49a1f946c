/-!
# Workers

Doing many jobs at once.

Nobody knows which worker does a job, or which job is done before another. What is
known is that each job is done once, and that its result goes to a place of its own,
the one with the number of the job. `fill` puts one result in its place, and the
results of all jobs are what stands in the places at the end.

Starting a number of workers that somebody asks for may fail. The workers that are
there already, if nobody asks for a number, need no start.

## Main definitions

* `Workers`: What is known of workers.
* `Workers.inOrder`: Workers that do one job after the other.
* `fill`, `Workers.map`: The results of jobs.
-/

namespace SoleRoot

namespace Host

/-- What is known of workers. -/
structure Workers where
  /-- Start a number of workers, or tell why they cannot be started. -/
  start : UInt32 → Except String Unit
  /-- The numbers of the jobs, in the order in which they are done by as many
      workers as were started, or else by those that are there. -/
  order : Option UInt32 → (jobs : Nat) → List Nat
  once : ∀ count jobs, (order count jobs).Perm (List.range jobs)

section Jobs

variable {α β : Type}

/-- The result of a job is put in the place with its number. -/
def fill (job : α → β) (inputs : List α) (places : List (Option β)) (i : Nat) :
    List (Option β) :=
  places.set i (inputs[i]?.map job)

namespace Workers

/-- Workers that do one job after the other. -/
def inOrder : Workers where
  start _ := .ok ()
  order _ jobs := List.range jobs
  once _ _ := .refl _

/-- What stands in the places when all jobs have been done. -/
def map (w : Workers) (count : Option UInt32) (job : α → β) (inputs : List α) : List β :=
  ((w.order count inputs.length).foldl (fill job inputs)
    (inputs.map fun _ => none)).filterMap id

end Workers

end Jobs

end Host

end SoleRoot
