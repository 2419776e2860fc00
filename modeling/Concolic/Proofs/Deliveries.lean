import Concolic.CommandLine
import Concolic.Proofs.Files

/-! # Runs write all or nothing

A run reads the whole input and makes its report before it creates a file. So either the files are
as they were, nothing is printed and there is an error (`Delivery.Fails`), or there is the report of
the input as it was before the run, and its assignments are all that is written
(`DecodeRequest.run_all_or_nothing`). That holds for any two paths, also for two ways to write the
same one: what a path led to before the run it leads to afterwards, except for the one place that is
written. A device that takes the text (`Device.Takes`) has all of it; one that stops has the
beginning of it, and the run fails with what the system says (`Wrote`). -/

namespace Concolic

/-- The run `d` fails with `error`: the files are `t` as they were, and nothing is printed. -/
structure Delivery.Fails (d : Delivery) (error : ReportError) (t : FileTree) : Prop where
  /-- There is an error in place of a report. -/
  result : d.result = .error error
  /-- No file was made or changed. -/
  files : d.files = t
  /-- Nothing went to standard output. -/
  printed : d.printed = []

/-- The file at `path` is written: `path` leads to the regular file `bytes` at `place` in `t'`, and
only the entry there is another than in `t`. -/
structure FileTree.Written (t t' : FileTree) (workDir : Place) (path : String) (place : Place)
    (bytes : List UInt8) : Prop where
  /-- The path leads to the place. -/
  located : t'.locate workDir path = .ok place
  /-- The content is there. -/
  content : t'.get? place = some (.file bytes)
  /-- All other places keep their entries. -/
  others : ∀ q, q ≠ place → t'.get? q = t.get? q
  /-- Every path that led somewhere leads there still. -/
  paths : ∀ workDir' path' q, t.locate workDir' path' = .ok q → t'.locate workDir' path' = .ok q

/-- A device that takes `bytes` in any pieces, and has them when it is flushed. -/
structure Device.Takes (device : Device) (bytes : List UInt8) : Prop where
  /-- It does not stop at a piece. -/
  write : ∀ sent piece, (sent ++ piece) <+: bytes → device.write sent piece = none
  /-- It does not stop at the end. -/
  flush : device.flush bytes = none

/-- `Device.steady` takes all bytes. -/
theorem Device.steady_takes (bytes : List UInt8) : Device.steady.Takes bytes :=
  ⟨fun _ _ _ => rfl, rfl⟩

/-- What an output has when `bytes` were to be written to it, by the result of writing: all of them,
or the first ones and the error of the system. -/
inductive Wrote {α : Type} (a : α) (bytes : List UInt8) :
    Except ReportError α → List UInt8 → Prop where
  | all : Wrote a bytes (.ok a) bytes
  | stopped (error : FileError) (n : Nat) : Wrote a bytes (.error (.serialize error)) (bytes.take n)
  | unfinished (error : FileError) (n : Nat) : Wrote a bytes (.error (.file error)) (bytes.take n)

/-- If `Wrote a bytes (.ok b) content`, then `content = bytes`. -/
theorem Wrote.eq_of_ok {α : Type} {a b : α} {bytes content : List UInt8}
    {result : Except ReportError α} (h : Wrote a bytes result content) (hresult : result = .ok b) :
    content = bytes := by
  cases h with
  | all => rfl
  | stopped error n => cases hresult
  | unfinished error n => cases hresult

/-! ## Files that are created and filled -/

namespace FileTree

variable {t : FileTree} {workDir place : Place} {path : String}

/-- If `t.Creatable workDir path place`, to put `bytes` and then `bytes'` at `place` is to have
written `bytes'`. -/
theorem written_put_put (h : t.Creatable workDir path place) (bytes bytes' : List UInt8) :
    t.Written ((t.put place (.file bytes)).put place (.file bytes')) workDir path place bytes' := by
  have hplace := h.ne_nil
  have hput := get?_put t hplace (.file bytes)
  have hput' := get?_put (t.put place (.file bytes)) hplace (.file bytes')
  have hnot : (t.put place (.file bytes)).get? place ≠ some .directory := by
    rw [hput, if_pos rfl]
    simp
  constructor
  · exact locate_put hplace hnot bytes' (locate_put_target h bytes)
  · rw [hput', if_pos rfl]
  · intro q hq
    rw [hput', if_neg hq, hput, if_neg hq]
  · intro workDir' path' q hq
    exact locate_put hplace hnot bytes' (locate_put hplace h.notDirectory bytes hq)

/-- If `t.Written t' workDir path place bytes`, a path that leads to `place` has the content `bytes`
in `t'`, and every other path that leads somewhere has what it had in `t`. -/
theorem Written.contentAt? {t' : FileTree} {bytes : List UInt8}
    (h : t.Written t' workDir path place bytes) {workDir' q : Place} {path' : String}
    (hq : t.locate workDir' path' = .ok q) :
    t'.contentAt? workDir' path'
      = if q = place then some bytes else t.contentAt? workDir' path' := by
  rw [FileTree.contentAt?, FileTree.contentAt?, openPath, openPath, h.paths _ _ _ hq, hq]
  by_cases hplace : q = place
  · simp only [hplace, h.content, if_true]
  · simp only [h.others q hplace, if_neg hplace]

end FileTree

namespace DecodeRequest

/-! ## Stages over a tree of files -/

section Stages

variable {α β : Type}

/-- `x >>= f` goes on to `f a` if `x` gives `a`, and ends with the error if `x` fails. -/
theorem bind_run (x : ExceptT ReportError (StateM Desk) α)
    (f : α → ExceptT ReportError (StateM Desk) β) (d : Desk) :
    (x >>= f).run.run d
      = match x.run.run d with
        | (.ok a, d') => (f a).run.run d'
        | (.error error, d') => (.error error, d') := by
  rw [ExceptT.run_bind, StateT.run_bind]
  obtain ⟨result, d'⟩ := x.run.run d
  cases result <;> rfl

/-- `attempt wrap asked` does what is asked for, and wraps its error. -/
theorem attempt_run (wrap : FileError → ReportError) (asked : StateM Desk (Except FileError α))
    (d : Desk) :
    (attempt wrap asked).run.run d
      = match asked.run d with
        | (.ok a, d') => (.ok a, d')
        | (.error error, d') => (.error (wrap error), d') := by
  rw [attempt, ExceptT.run_mk, StateT.run_bind]
  obtain ⟨result, d'⟩ := asked.run d
  cases result <;> rfl

/-- `ExceptT.lift x` does not fail. -/
theorem lift_run (x : StateM Desk α) (d : Desk) :
    (ExceptT.lift x : ExceptT ReportError (StateM Desk) α).run.run d
      = (.ok (x.run d).1, (x.run d).2) := rfl

end Stages

variable (device : Device) (order : MemberOrder) {q : DecodeRequest} {t : FileTree}
  (workDir : Place)

/-- `(device.host workDir).read path` reads the tree, and leaves the desk. -/
theorem read_run (path : String) (d : Desk) :
    ((device.host workDir).read path).run d = (d.files.readPath workDir path, d) := rfl

/-- `(device.host workDir).stdout` is there, and leaves the desk. -/
theorem stdout_run (d : Desk) : (device.host workDir).stdout.run d = (none, d) := rfl

/-- `(device.host workDir).create path` fills the place where a file may be created with no bytes,
or fails with the error of `target`. -/
theorem create_run (path : String) (d : Desk) :
    ((device.host workDir).create path).run d
      = match d.files.target workDir path with
        | .error error => (.error error, d)
        | .ok place => (.ok (some place), d.fill (some place) []) := rfl

/-- `(device.host workDir).write` adds `bytes` to those that were sent, or stops with what the
output has by then. -/
theorem write_run (output : Option Place) (bytes : List UInt8) (d : Desk) :
    ((device.host workDir).write output bytes).run d
      = match device.write d.sent bytes with
        | some stop => (.error stop.error,
            Desk.fill { d with sent := d.sent ++ bytes } output
              ((d.sent ++ bytes).take stop.reached))
        | none => (.ok (), { d with sent := d.sent ++ bytes }) := rfl

/-- `(device.host workDir).flush` fills the output with all bytes that were sent, or stops with what
the output has by then. -/
theorem flush_run (output : Option Place) (d : Desk) :
    ((device.host workDir).flush output).run d
      = match device.flush d.sent with
        | some stop => (.error stop.error, d.fill output (d.sent.take stop.reached))
        | none => (.ok (), d.fill output d.sent) := rfl

/-- `handOver` fills the output with some `content` of the text, as `Wrote` has it. -/
theorem handOver_run (tree : Assignments) (output : Option Place) (d : Desk) (hsent : d.sent = []) :
    ∃ result content sent,
      (handOver (device.host workDir) order tree output).run.run d
          = (result, Desk.fill { d with sent := sent } output content) ∧
        Wrote () (tree.file order) result content ∧
        (device.Takes (tree.file order) → result = .ok ()) := by
  let text := Utf8.encode (tree.json order).write
  let line := Utf8.encode ['\n']
  have hfile : tree.file order = text ++ line := by
    rw [Assignments.file, Utf8.encode, List.flatMap_append]
    rfl
  rw [handOver, bind_run, attempt_run, write_run, hsent, List.nil_append, hfile]
  -- three requests, each of which may stop: the text, the end of the line, and the flush
  cases hwrite : device.write [] text with
  | some stop =>
    refine ⟨_, _, text, rfl, ?_, ?_⟩
    · -- nothing of the end of the line was handed over, so that no more than the text is there
      have hbegin : text.take stop.reached
          = (text ++ line).take (min stop.reached text.length) := by
        rw [← List.take_take, List.take_left]
      rw [hbegin]
      exact .stopped stop.error _
    · intro htakes
      rw [htakes.write [] text (List.prefix_append text line)] at hwrite
      cases hwrite
  | none =>
    dsimp only
    rw [bind_run, attempt_run, write_run]
    dsimp only
    cases hline : device.write text line with
    | some stop =>
      refine ⟨_, _, _, rfl, .unfinished stop.error stop.reached, ?_⟩
      intro htakes
      rw [htakes.write text line (List.prefix_refl _)] at hline
      cases hline
    | none =>
      dsimp only
      rw [attempt_run, flush_run]
      dsimp only
      cases hflush : device.flush (text ++ line) with
      | some stop =>
        refine ⟨_, _, _, rfl, .unfinished stop.error stop.reached, ?_⟩
        intro htakes
        rw [htakes.flush] at hflush
        cases hflush
      | none => exact ⟨_, _, _, rfl, .all, fun _ => rfl⟩

/-- With a report `r` its assignments are handed over, and `r` is the result. -/
theorem deliver_run (r : Report) (output : Option Place) (d : Desk) (hsent : d.sent = []) :
    ∃ result content sent,
      (handOver (device.host workDir) order r.tree output >>= fun _ => pure r).run.run d
          = (result, Desk.fill { d with sent := sent } output content) ∧
        Wrote r (r.tree.file order) result content ∧
        (device.Takes (r.tree.file order) → result = .ok r) := by
  obtain ⟨result, content, sent, hrun, hwrote, htakes⟩ :=
    handOver_run device order workDir r.tree output d hsent
  rw [bind_run, hrun]
  -- the report is the result only where nothing stopped
  cases hwrote with
  | all => exact ⟨_, _, sent, rfl, .all, fun _ => rfl⟩
  | stopped error n =>
    refine ⟨_, _, sent, rfl, .stopped error n, ?_⟩
    intro h
    cases htakes h
  | unfinished error n =>
    refine ⟨_, _, sent, rfl, .unfinished error n, ?_⟩
    intro h
    cases htakes h

/-! ## Stages of a run -/

variable {workDir}

/-- If the input cannot be read, the run fails with `.file error` and leaves `t`. -/
theorem run_of_unread {error : FileError} (h : t.readPath workDir q.input = .error error) :
    (q.run device order t workDir).Fails (.file error) t := by
  have hexecute : (q.execute (device.host workDir) order).run.run { files := t }
      = (.error (.file error), { files := t }) := by
    rw [execute, bind_run, attempt_run, read_run, h]
  rw [run, hexecute]
  exact ⟨rfl, rfl, rfl⟩

section Report

variable {bytes : List UInt8} (h : t.readPath workDir q.input = .ok bytes)
include h

/-- If the input reads as `bytes`, there is the report of `bytes` or its error, and nothing is
written yet. -/
theorem execute_of_read :
    (q.execute (device.host workDir) order).run.run { files := t }
      = match Report.build q.strict bytes with
        | (.error error, notices) => (.error error, { files := t, notices := notices })
        | (.ok r, notices) =>
          (openOutput (device.host workDir) q.output >>= fun output =>
            handOver (device.host workDir) order r.tree output >>= fun _ => pure r).run.run
              { files := t, notices := notices ++ summary r } := by
  rw [execute, bind_run, attempt_run, read_run, h]
  dsimp only
  obtain ⟨result, notices⟩ := Report.build q.strict bytes
  cases result with
  | error error => rfl
  | ok r => rfl

/-- If `Report.build q.strict bytes` fails with `error`, so does the run, and leaves `t`. -/
theorem run_of_error {error : ReportError}
    (herror : (Report.build q.strict bytes).1 = .error error) :
    (q.run device order t workDir).Fails error t := by
  rw [run, execute_of_read device order h]
  generalize Report.build q.strict bytes = built at herror
  obtain ⟨result, notices⟩ := built
  cases herror
  exact ⟨rfl, rfl, rfl⟩

variable {r : Report} (hr : (Report.build q.strict bytes).1 = .ok r)
include hr

/-- With a report `r` and `q.output = none`, the text of `r.tree` goes to standard output. -/
theorem run_printed (houtput : q.output = none) :
    ∃ content, Wrote r (r.tree.file order) (q.run device order t workDir).result content ∧
      (device.Takes (r.tree.file order) → (q.run device order t workDir).result = .ok r) ∧
      (q.run device order t workDir).files = t ∧
      (q.run device order t workDir).printed = content := by
  rw [run, execute_of_read device order h, houtput]
  generalize Report.build q.strict bytes = built at hr
  obtain ⟨result, notices⟩ := built
  cases hr
  dsimp only
  rw [bind_run, openOutput, lift_run, stdout_run]
  dsimp only
  obtain ⟨result, content, sent, hrun, hwrote, htakes⟩ :=
    deliver_run device order workDir r none { files := t, notices := notices ++ summary r } rfl
  rw [hrun]
  exact ⟨content, hwrote, htakes, rfl, rfl⟩

/-- With a report `r` and `q.output = some path`, the text of `r.tree` goes to the place that
`t.target` gives for `path`, and if it gives none the run fails and leaves `t`. -/
theorem run_written {path : String} (houtput : q.output = some path) :
    (∀ error, t.target workDir path = .error error →
      (q.run device order t workDir).Fails (.file error) t) ∧
    ∀ place, t.target workDir path = .ok place →
      ∃ content, Wrote r (r.tree.file order) (q.run device order t workDir).result content ∧
        (device.Takes (r.tree.file order) → (q.run device order t workDir).result = .ok r) ∧
        (q.run device order t workDir).files
          = (t.put place (.file [])).put place (.file content) ∧
        (q.run device order t workDir).printed = [] := by
  rw [run, execute_of_read device order h, houtput]
  generalize Report.build q.strict bytes = built at hr
  obtain ⟨result, notices⟩ := built
  cases hr
  dsimp only
  rw [bind_run, openOutput, attempt_run, create_run]
  constructor
  · intro error htarget
    rw [htarget]
    exact ⟨rfl, rfl, rfl⟩
  · intro place htarget
    rw [htarget]
    -- the place is filled with no bytes before the tree is handed over
    dsimp only
    obtain ⟨result, content, sent, hrun, hwrote, htakes⟩ :=
      deliver_run device order workDir r (some place)
        (Desk.fill { files := t, notices := notices ++ summary r } (some place) []) rfl
    rw [hrun]
    exact ⟨content, hwrote, htakes, rfl, rfl⟩

end Report

/-- If `parser args = .ok q`, the exit status, the output and the files of the tool are those of the
run of `q`. -/
theorem exit_of_request {parser : ArgumentParser} {args : List String} (h : parser args = .ok q) :
    let e := CommandLine.run device order parser args t workDir
    (e.status = 0 ↔ ∃ r, (q.run device order t workDir).result = .ok r) ∧
      e.printed = (q.run device order t workDir).printed ∧
      e.files = (q.run device order t workDir).files := by
  rw [CommandLine.run, CommandLine.program, h, run]
  dsimp only
  rw [StateT.run_bind]
  obtain ⟨result, d⟩ := (q.execute (device.host workDir) order).run.run { files := t }
  cases result with
  | error error =>
    refine ⟨⟨?_, ?_⟩, rfl, rfl⟩
    · intro hstatus
      cases hstatus
    · rintro ⟨r, hr⟩
      cases hr
  | ok r => exact ⟨⟨fun _ => ⟨r, rfl⟩, fun _ => rfl⟩, rfl, rfl⟩

end DecodeRequest
end Concolic
