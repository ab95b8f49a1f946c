import SoleRoot.Host.Session
import SoleRoot.Host.Workers

/-!
# Batches

Transforming many files at once.

Every file has an outcome of its own, in the files' order, and a file that
fails keeps none of the others from succeeding. A batch may instead be asked to
stop at the first failure; then the outcomes end with that one, and the files
after it have none. Several workers do the files of a batch that goes on behind
failures, and one that stops is done in order.

The counts that a host gets have thirty-two bits, whatever the number of files.

## Main definitions

* `File`, `Outcome`: A file, and what became of it.
* `throughFirst`: A list up to the first element of a kind.
* `Report`: The outcomes of a batch, and how many there are of each kind.
* `Session.batch`: The report on files.
* `BatchOptions`, `Stats`, `Unstarted`: What a host asks for and gets.
* `Session.transformBatch`: The report on files that workers have done.
-/

namespace SoleRoot

namespace Host

/-- A text with a name to know it by. -/
structure File where
  id : String
  source : String
  deriving DecidableEq, Repr

/-- What became of a file. Exactly one of `code` and `error` is set. -/
structure Outcome where
  id : String
  /-- The component, if there is one. -/
  code : Option String := none
  /-- The message shown to a person, if there is no component. -/
  error : Option String := none
  deriving DecidableEq, Repr

/-- Whether the file has no component. -/
def Outcome.isFailure (o : Outcome) : Bool :=
  o.error.isSome

/-- A list up to and with the first element that is of a kind. -/
def throughFirst {α : Type} (p : α → Bool) : List α → List α
  | [] => []
  | x :: xs => if p x then [x] else x :: throughFirst p xs

/-- The counts that a host gets. -/
structure Stats where
  total : UInt32
  succeeded : UInt32
  failed : UInt32
  deriving DecidableEq, Repr

/-- What became of the files of a batch. -/
structure Report where
  /-- How many files were given. -/
  total : Nat
  outcomes : List Outcome

namespace Report

/-- How many files have no component. -/
def failed (r : Report) : Nat :=
  r.outcomes.countP Outcome.isFailure

/-- How many files have a component. -/
def succeeded (r : Report) : Nat :=
  r.outcomes.length - r.failed

/-- The counts that a host gets. Each is cut to its bits before it is used. -/
def stats (r : Report) : Stats where
  total := .ofNat r.total
  succeeded := .ofNat r.outcomes.length - .ofNat r.failed
  failed := .ofNat r.failed

end Report

/-- How to do a batch. What is missing is left at its default. -/
structure BatchOptions where
  /-- How many workers to start. -/
  maxThreads : Option UInt32 := none
  /-- Whether to go on behind a file that failed. -/
  continueOnError : Option Bool := none
  deriving DecidableEq, Repr

/-- Why there is no report: the workers that were asked for cannot be started. -/
structure Unstarted where
  count : UInt32
  cause : String
  deriving DecidableEq, Repr

namespace Unstarted

/-- Whose fault it is. -/
def status (_ : Unstarted) : Status :=
  .generalFailure

/-- The message shown to a person. -/
def message (u : Unstarted) : String :=
  s!"Cannot start {u.count} worker thread(s): {u.cause}"

end Unstarted

/-- The outcomes up to the first failure, that one included. `failed` says whether
    there was one before. -/
def untilFailure : (failed : Bool) → List Outcome → List Outcome
  | _, [] => []
  | failed, o :: outcomes =>
    let keep := !failed
    let failed := failed || o.isFailure
    if keep then o :: untilFailure failed outcomes else []

namespace Session

/-- What becomes of a file. -/
def outcome (s : Session) (f : File) : Outcome :=
  match SoleRoot.transform s.options f.source with
  | .ok code => { id := f.id, code := some code }
  | .error failure => { id := f.id, error := some failure.message }

/-- The report on files. -/
def batch (s : Session) (files : List File) (stopAtFailure : Bool) : Report :=
  let outcomes := files.map s.outcome
  ⟨files.length, if stopAtFailure then throughFirst Outcome.isFailure outcomes else outcomes⟩

/-- The outcomes of all files, done by as many workers as are asked for, or else by
    those that are there. -/
def outcomes (s : Session) (w : Workers) (files : List File) (maxThreads : Option UInt32) :
    Except Unstarted (List Outcome) :=
  match maxThreads with
  | none => .ok (w.map none s.outcome files)
  | some count =>
    match w.start count with
    | .error cause => .error ⟨count, cause⟩
    | .ok () => .ok (w.map (some count) s.outcome files)

/-- The report on files that workers have done, with the defaults if there are no
    options. -/
def transformBatch (s : Session) (w : Workers) (files : List File)
    (options : Option BatchOptions) : Except Unstarted Report := do
  let o := options.getD {}
  let outcomes ←
    if o.continueOnError.getD true then s.outcomes w files o.maxThreads
    else .ok (untilFailure false (files.map s.outcome))
  .ok ⟨files.length, outcomes⟩

end Session

end Host

end SoleRoot
