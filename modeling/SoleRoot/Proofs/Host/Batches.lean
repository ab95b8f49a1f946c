import SoleRoot.Host.Batch
import SoleRoot.Proofs.Outcome

/-!
# Exact Reports

A report says of every file what becomes of it, and its counts are right.

The order in which workers do their jobs is not known, so nothing that is said of
their results may depend on it. The places of the results are looked at one by one:
a place holds the result of its job if the job has been done, and nothing else, and
this is kept by every job. When all jobs have been done, in whatever order, the
results stand in the order of the jobs.

A batch that stops is a list cut behind its first failure. The code remembers in
a flag whether there was one, and `untilFailure_eq` says that this cuts the list
in the right place. Both kinds of batch so come down to the same list of outcomes.

The counts are cut to thirty-two bits. As long as there are not more files than
these can count, no count is changed, and the failures are never more than the
outcomes they are taken from.

## Main definitions

* `Workers.inReverse`: Workers whose order is not that of the jobs.

## Theorems

* `getElem?_foldl_fill`: What stands in the places behind any row of jobs.
* `Workers.map_eq`: The results of all jobs are in the order of the jobs.
* `untilFailure_eq`: The flag cuts a list behind the first failure.
* `throughFirst_begins`, `throughFirst_prefix_of_mem`: The shortest beginning with a
  failure.
* `Report.stats_exact`: The counts of a report.
* `Session.isSome_code_outcome`: Either the component or the message is there.
* `Session.transformBatch_eq_batch`: Workers make the report that is made in order.
* `Session.transformBatch_exact`: What a report says.
-/

namespace SoleRoot

namespace Host

section Jobs

variable {α β : Type} {job : α → β} {inputs : List α}

/-- A job changes its own place and no other. -/
theorem getElem?_fill (places : List (Option β)) (i j : Nat) (hj : j < places.length) :
    (fill job inputs places i)[j]? =
      if i = j then some (inputs[j]?.map job) else places[j]? := by
  rw [fill, List.getElem?_set]
  split
  · rename_i hij
    rw [if_pos (hij ▸ hj), hij]
  · rfl

theorem length_fill (places : List (Option β)) (i : Nat) :
    (fill job inputs places i).length = places.length :=
  List.length_set

/-- Behind any row of jobs a place holds the result of its job, if this is one of
    them. -/
theorem getElem?_foldl_fill (order : List Nat) (places : List (Option β)) (j : Nat)
    (hj : j < places.length) :
    (order.foldl (fill job inputs) places)[j]? =
      if j ∈ order then some (inputs[j]?.map job) else places[j]? := by
  induction order generalizing places with
  | nil => rfl
  | cons i order ih =>
      -- A job further on may have the same place. It puts the same result there.
      rw [List.foldl_cons, ih _ (by rwa [length_fill]), getElem?_fill _ _ _ hj]
      by_cases horder : j ∈ order
      · rw [if_pos horder, if_pos (List.mem_cons_of_mem i horder)]
      · by_cases hij : i = j
        · rw [if_neg horder, if_pos hij, if_pos (by simp [hij])]
        · rw [if_neg horder, if_neg hij, if_neg (by simp [horder, Ne.symm hij])]

theorem length_foldl_fill (order : List Nat) (places : List (Option β)) :
    (order.foldl (fill job inputs) places).length = places.length := by
  induction order generalizing places with
  | nil => rfl
  | cons i order ih => rw [List.foldl_cons, ih, length_fill]

/-- In whatever order jobs are done, their results are in the order of the jobs. -/
theorem Workers.map_eq (w : Workers) (count : Option UInt32) (job : α → β) (inputs : List α) :
    w.map count job inputs = inputs.map job := by
  have hplaces : (w.order count inputs.length).foldl (fill job inputs)
      (inputs.map fun _ => none) = inputs.map fun x => some (job x) := by
    refine List.ext_getElem? fun j => ?_
    -- All jobs have been done, whatever came first.
    by_cases hj : j < inputs.length
    · have hdone : j ∈ w.order count inputs.length :=
        (w.once count inputs.length).mem_iff.2 (List.mem_range.2 hj)
      rw [getElem?_foldl_fill _ _ j (by rwa [List.length_map]), if_pos hdone, List.getElem?_map,
        List.getElem?_eq_getElem hj]
      rfl
    · rw [List.getElem?_eq_none (by rw [length_foldl_fill, List.length_map]; omega),
        List.getElem?_eq_none (by rw [List.length_map]; omega)]
  have hid : (id ∘ fun x => some (job x)) = some ∘ job := rfl
  rw [Workers.map, hplaces, List.filterMap_map, hid, List.filterMap_eq_map]

/-- Workers that do the last job first. -/
def Workers.inReverse : Workers where
  start _ := .ok ()
  order _ jobs := (List.range jobs).reverse
  once _ _ := List.reverse_perm _

end Jobs

section Cut

theorem untilFailure_true (outcomes : List Outcome) : untilFailure true outcomes = [] := by
  cases outcomes with
  | nil => rfl
  | cons o outcomes => rfl

/-- The flag cuts a list behind the first failure. -/
theorem untilFailure_eq (outcomes : List Outcome) :
    untilFailure false outcomes = throughFirst Outcome.isFailure outcomes := by
  induction outcomes with
  | nil => rfl
  | cons o outcomes ih =>
      rw [untilFailure, throughFirst]
      cases hfailure : o.isFailure with
      | true => simp [untilFailure_true]
      | false => simp [ih]

variable {α : Type} {p : α → Bool} {xs : List α}

theorem throughFirst_begins (p : α → Bool) (xs : List α) : throughFirst p xs <+: xs := by
  induction xs with
  | nil => exact List.prefix_rfl
  | cons x xs ih =>
      rw [throughFirst]
      split
      · exact ⟨xs, rfl⟩
      · exact (List.prefix_cons_inj x).2 ih

theorem throughFirst_of_not_mem (h : ∀ x ∈ xs, p x = false) : throughFirst p xs = xs := by
  induction xs with
  | nil => rfl
  | cons x xs ih =>
      rw [throughFirst, h x List.mem_cons_self, if_neg Bool.false_ne_true,
        ih fun y hy => h y (List.mem_cons_of_mem x hy)]

theorem exists_mem_throughFirst (h : ∃ x ∈ xs, p x = true) :
    ∃ x ∈ throughFirst p xs, p x = true := by
  induction xs with
  | nil => simp at h
  | cons x xs ih =>
      rw [throughFirst]
      split
      · rename_i hx
        exact ⟨x, List.mem_cons_self, hx⟩
      · rename_i hx
        rcases h with ⟨y, hy, hpy⟩
        have hrest : y ∈ xs := (List.mem_cons.1 hy).resolve_left fun heq => hx (heq ▸ hpy)
        rcases ih ⟨y, hrest, hpy⟩ with ⟨z, hz, hpz⟩
        exact ⟨z, List.mem_cons_of_mem x hz, hpz⟩

/-- Every beginning that holds an element of the kind goes at least as far. -/
theorem throughFirst_prefix_of_mem {ys : List α} (hbegin : ys <+: xs)
    (h : ∃ x ∈ ys, p x = true) : throughFirst p xs <+: ys := by
  induction xs generalizing ys with
  | nil =>
      rw [List.prefix_nil.1 hbegin] at h
      simp at h
  | cons x xs ih =>
      cases ys with
      | nil => simp at h
      | cons y ys =>
          rcases List.cons_prefix_cons.1 hbegin with ⟨rfl, hrest⟩
          rw [throughFirst]
          split
          · exact ⟨ys, rfl⟩
          · rename_i hy
            rcases h with ⟨z, hz, hpz⟩
            have hmem : z ∈ ys := (List.mem_cons.1 hz).resolve_left fun heq => hy (heq ▸ hpz)
            exact (List.prefix_cons_inj y).2 (ih hrest ⟨z, hmem, hpz⟩)

end Cut

/-- If there are not more files than can be counted, then the counts that a host gets
    are the numbers of the files, of the failures and of the other outcomes, and the
    failures are not more than the outcomes. -/
theorem Report.stats_exact {r : Report} (hcount : r.total < UInt32.size)
    (hlength : r.outcomes.length ≤ r.total) :
    r.stats.total.toNat = r.total ∧ r.stats.failed.toNat = r.failed ∧
      r.stats.succeeded.toNat = r.succeeded ∧
      r.stats.failed ≤ UInt32.ofNat r.outcomes.length ∧
      r.stats.succeeded.toNat + r.stats.failed.toNat = r.outcomes.length := by
  have hle : r.failed ≤ r.outcomes.length := List.countP_le_length
  -- Nothing that is counted is more than the files, so nothing is cut.
  have hsmall (n : Nat) (hn : n ≤ r.outcomes.length) : (UInt32.ofNat n).toNat = n :=
    UInt32.toNat_ofNat_of_lt' (by omega)
  have horder : UInt32.ofNat r.failed ≤ UInt32.ofNat r.outcomes.length := by
    rw [UInt32.le_iff_toNat_le, hsmall _ hle, hsmall _ (Nat.le_refl _)]
    exact hle
  have hsub : r.stats.succeeded.toNat = r.succeeded := by
    rw [Report.stats, UInt32.toNat_sub_of_le _ _ horder, hsmall _ hle,
      hsmall _ (Nat.le_refl _)]
    rfl
  have hfailed : r.stats.failed.toNat = r.failed := hsmall _ hle
  refine ⟨UInt32.toNat_ofNat_of_lt' hcount, hfailed, hsub, horder, ?_⟩
  rw [hsub, hfailed, Report.succeeded]
  omega

namespace Session

/-- An outcome has the name of its file, and either the component that the file has
    on its own or the message of the failure that it has on its own. -/
theorem outcome_alone (s : Session) (f : File) :
    (s.outcome f).id = f.id ∧
      ((∃ code, SoleRoot.transform s.options f.source = .ok code ∧
          (s.outcome f).code = some code ∧ (s.outcome f).error = none) ∨
        ∃ failure, SoleRoot.transform s.options f.source = .error failure ∧
          (s.outcome f).code = none ∧ (s.outcome f).error = some failure.message) := by
  unfold outcome
  cases SoleRoot.transform s.options f.source with
  | ok code => exact ⟨rfl, .inl ⟨code, rfl, rfl, rfl⟩⟩
  | error failure => exact ⟨rfl, .inr ⟨failure, rfl, rfl, rfl⟩⟩

/-- Exactly one of the component and the message is there. -/
theorem isSome_code_outcome (s : Session) (f : File) :
    (s.outcome f).code.isSome = !(s.outcome f).error.isSome := by
  rcases (s.outcome_alone f).2 with ⟨_, _, hcode, herror⟩ | ⟨_, _, hcode, herror⟩
  · rw [hcode, herror]
    rfl
  · rw [hcode, herror]
    rfl

variable {s : Session} {w : Workers} {files : List File} {options : Option BatchOptions}

/-- A batch that is not told to stop goes on. -/
theorem goesOn_of_ne {continueOnError : Option Bool} (h : continueOnError ≠ some false) :
    continueOnError.getD true = true := by
  rcases continueOnError with _ | _ | _
  · rfl
  · exact absurd rfl h
  · rfl

/-- Workers that cannot be started make no report. -/
theorem transformBatch_of_start_error {n : UInt32} {cause : String}
    (hgoesOn : (options.getD {}).continueOnError ≠ some false)
    (hthreads : (options.getD {}).maxThreads = some n) (hstart : w.start n = .error cause) :
    s.transformBatch w files options = .error ⟨n, cause⟩ := by
  simp only [transformBatch, goesOn_of_ne hgoesOn, if_true, outcomes, hthreads, hstart]
  rfl

/-- Workers that are there make the report that is made by doing one file after the
    other. -/
theorem transformBatch_eq_batch
    (hgoesOn : (options.getD {}).continueOnError ≠ some false)
    (hstart : ∀ n, (options.getD {}).maxThreads = some n → w.start n = .ok ()) :
    s.transformBatch w files options = .ok (s.batch files false) := by
  have houtcomes : s.outcomes w files (options.getD {}).maxThreads =
      .ok (files.map s.outcome) := by
    cases hthreads : (options.getD {}).maxThreads with
    | none => rw [outcomes, Workers.map_eq]
    | some n => simp only [outcomes, hstart n hthreads, Workers.map_eq]
  simp only [transformBatch, goesOn_of_ne hgoesOn, if_true, houtcomes, batch, Bool.false_eq_true,
    if_false]
  rfl

/-- A batch that stops needs no workers. -/
theorem transformBatch_eq_batch_stop
    (hstop : (options.getD {}).continueOnError = some false) :
    s.transformBatch w files options = .ok (s.batch files true) := by
  simp only [transformBatch, hstop, Option.getD_some, Bool.false_eq_true, if_false, batch,
    untilFailure_eq, if_true]
  rfl

/-- The outcomes of a batch are not more than the files. -/
theorem length_batch_le (s : Session) (files : List File) (stop : Bool) :
    (s.batch files stop).outcomes.length ≤ (s.batch files stop).total := by
  cases stop with
  | false => exact (List.length_map s.outcome).le
  | true =>
      have hle := (throughFirst_begins Outcome.isFailure (files.map s.outcome)).length_le
      rwa [List.length_map] at hle

/-- The outcomes that are no failures are those with a component. -/
theorem succeeded_batch (s : Session) (files : List File) (stop : Bool) :
    (s.batch files stop).succeeded = (s.batch files stop).outcomes.countP (·.code.isSome) := by
  -- Every outcome is that of a file, and has one of the two.
  have hone : ∀ o ∈ (s.batch files stop).outcomes, o.code.isSome = !o.isFailure := by
    intro o ho
    have hmem : o ∈ files.map s.outcome := by
      cases stop with
      | false => exact ho
      | true => exact (throughFirst_begins Outcome.isFailure _).subset ho
    rcases List.mem_map.1 hmem with ⟨f, _, rfl⟩
    exact s.isSome_code_outcome f
  have hcodes : (s.batch files stop).outcomes.countP (·.code.isSome) =
      (s.batch files stop).outcomes.countP (fun o => decide ¬ o.isFailure = true) :=
    List.countP_congr fun o ho => by simp [hone o ho]
  rw [hcodes, Report.succeeded, Report.failed,
    List.length_eq_countP_add_countP Outcome.isFailure, Nat.add_sub_cancel_left]

/-- A report is exact. If workers are asked for and cannot be started, that is what
    the host is told, and else it gets a report. A batch that goes on has the outcome
    of every file, in the order of the files and whatever workers there are. A batch
    that stops has the shortest beginning of that list with a failure in it, or all
    of it if there is no failure. The counts are those of the files, of the outcomes
    with a message and of the others, and the difference is never below zero. -/
theorem transformBatch_exact (s : Session) (w : Workers) (files : List File)
    (hcount : files.length < UInt32.size) (options : Option BatchOptions) :
    (∀ n cause, (options.getD {}).continueOnError ≠ some false →
      (options.getD {}).maxThreads = some n → w.start n = .error cause →
      s.transformBatch w files options = .error ⟨n, cause⟩) ∧
    ((options.getD {}).continueOnError = some false ∨
      (∀ n, (options.getD {}).maxThreads = some n → w.start n = .ok ()) →
      ∃ r, s.transformBatch w files options = .ok r ∧
        ((options.getD {}).continueOnError ≠ some false → r.outcomes = files.map s.outcome) ∧
        ((options.getD {}).continueOnError = some false →
          r.outcomes <+: files.map s.outcome ∧
          ((∃ o ∈ files.map s.outcome, o.error.isSome = true) →
            (∃ o ∈ r.outcomes, o.error.isSome = true) ∧
              ∀ os, os <+: files.map s.outcome → (∃ o ∈ os, o.error.isSome = true) →
                r.outcomes <+: os) ∧
          ((∀ o ∈ files.map s.outcome, o.error.isSome = false) →
            r.outcomes = files.map s.outcome)) ∧
        (∀ f ∈ files, (s.outcome f).id = f.id ∧
          ((∃ code, SoleRoot.transform s.options f.source = .ok code ∧
              (s.outcome f).code = some code ∧ (s.outcome f).error = none) ∨
            ∃ failure, SoleRoot.transform s.options f.source = .error failure ∧
              (s.outcome f).code = none ∧ (s.outcome f).error = some failure.message)) ∧
        r.stats.total.toNat = files.length ∧
        r.stats.failed.toNat = r.outcomes.countP (·.error.isSome) ∧
        r.stats.succeeded.toNat + r.stats.failed.toNat = r.outcomes.length ∧
        r.stats.failed ≤ UInt32.ofNat r.outcomes.length) := by
  refine ⟨fun n cause => transformBatch_of_start_error, fun hready => ?_⟩
  -- A batch that stops does one file after the other, so only the other one needs its workers.
  by_cases hstop : (options.getD {}).continueOnError = some false
  · rcases Report.stats_exact hcount (length_batch_le s files true) with
      ⟨htotal, hfailed, hsucceeded, hle, hsum⟩
    refine ⟨_, transformBatch_eq_batch_stop hstop, absurd hstop, fun _ => ⟨?_, ?_, ?_⟩,
      fun f _ => outcome_alone s f, htotal, ?_, hsum, hle⟩
    · exact throughFirst_begins _ _
    · intro hexists
      exact ⟨exists_mem_throughFirst hexists, fun os => throughFirst_prefix_of_mem⟩
    · exact throughFirst_of_not_mem
    · exact hfailed
  · rcases Report.stats_exact hcount (length_batch_le s files false) with
      ⟨htotal, hfailed, hsucceeded, hle, hsum⟩
    exact ⟨_, transformBatch_eq_batch hstop (hready.resolve_left hstop), fun _ => rfl,
      fun h => absurd h hstop, fun f _ => outcome_alone s f, htotal, hfailed, hsum, hle⟩

/-- Two workers that begin with the last file make a report in the order of the files. -/
theorem transformBatch_exact_inReverse :
    [File.mk "a" "<a/>", File.mk "b" "<b>", File.mk "c" "<c/>"].length < UInt32.size ∧
      ∃ r, (Session.mk { mode := .faithful }).transformBatch .inReverse
          [File.mk "a" "<a/>", File.mk "b" "<b>", File.mk "c" "<c/>"]
          (some { maxThreads := some 2 }) = .ok r ∧
        r.outcomes.map (fun o => (o.id, o.error.isSome)) =
          [("a", false), ("b", true), ("c", false)] ∧
        r.stats.failed.toNat = 1 := by
  have hcount : [File.mk "a" "<a/>", File.mk "b" "<b>", File.mk "c" "<c/>"].length <
      UInt32.size := by decide
  have hgoesOn : ((some { maxThreads := some 2 }).getD {} : BatchOptions).continueOnError ≠
      some false := by decide
  rcases (transformBatch_exact (Session.mk { mode := .faithful }) .inReverse _ hcount
    (some { maxThreads := some 2 })).2 (.inr fun _ _ => rfl) with
    ⟨r, hr, hall, -, -, -, hfailed, -⟩
  refine ⟨hcount, r, hr, ?_, ?_⟩
  · rw [hall hgoesOn]
    decide +kernel
  · rw [hfailed, hall hgoesOn]
    decide +kernel

end Session

end Host

end SoleRoot
