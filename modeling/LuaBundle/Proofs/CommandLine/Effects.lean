import LuaBundle.Proofs.CommandLine.ProjectSettings
import LuaBundle.Proofs.FileSystem.Writing

/-!
# What a run changes

A run that fails prints nothing to the standard output and leaves the files of the disk as they were,
at whatever point it fails and whatever it was asked to do.  A run that succeeds changes one file if
it was asked to write its bundle, and none otherwise.

* `Job.bundleText?` — the text of the bundle, in whatever way it is then given out;
* `Job.file?_perform_of_error`, `Job.exists_of_perform_output` — the disk after a run;
* `Outcome.effects_of_run` — both of them, for all that a call of the program shows.
-/

set_option autoImplicit false

namespace LuaBundle.CommandLine

variable {job : Job} {env : Environment} {d : Disk} {file : Path} {e : Failure} {printed : String}

namespace Job

/-- The text of the bundle of a run, if there is one. -/
def bundleText? (job : Job) (env : Environment) (d : Disk) : Option String := do
  let s ← (job.settings env d).result.toOption
  let run ← (Run.ofEntry d.toFileSystem s job.entry).result.toOption
  return run.bundle.source

theorem bundleText?_eq_some_iff {text : String} : job.bundleText? env d = some text ↔
    ∃ s, (job.settings env d).result = .ok s ∧
      ∃ run, (Run.ofEntry d.toFileSystem s job.entry).result = .ok run ∧
        run.bundle.source = text := by
  simp [bundleText?, Option.bind_eq_some_iff, toOption_eq_some_iff]

/-- The text of a bundle that is made. -/
theorem bundleText?_of_made {run : Run}
    (h : (do job.bundle (← job.start env d) d : Logged Failure Run).result = .ok run) :
    job.bundleText? env d = some run.bundle.source := by
  obtain ⟨s, hs, hrun⟩ := Logged.result_bind_eq_ok_iff.1 h
  exact bundleText?_eq_some_iff.2 ⟨s, start_eq_ok_iff.1 hs, run, bundle_eq_ok_iff.1 hrun, rfl⟩

/-! ## The disk after a run -/

/-- A run that is asked to write its bundle makes it first, with the disk as it was. -/
theorem perform_output (hmode : job.mode = .output file) :
    (∃ e, (job.perform env d).1 = d ∧ (job.perform env d).2.result = .error e) ∨
      ∃ b : Bundle, job.bundleText? env d = some b.source ∧
        (job.perform env d).1 = (b.writeTo file d).1 ∧
        (job.perform env d).2.result =
          ((b.writeTo file d).2.result.mapError .writing).map fun _ => "" := by
  unfold perform
  rw [hmode]
  dsimp only
  split
  · next e _ => exact .inl ⟨e, rfl, rfl⟩
  · next run hmade =>
    refine .inr ⟨run.bundle, bundleText?_of_made hmade, rfl, ?_⟩
    simp only [Logged.result_bind, Logged.result_noteAll, Logged.mapError]
    cases (run.bundle.writeTo file d).2.result <;> rfl

/-- **A run that fails** changes no file. -/
theorem file?_perform_of_error (h : (job.perform env d).2.result = .error e) :
    (job.perform env d).1.file? = d.file? := by
  cases hmode : job.mode with
  | stdout | list => rw [perform, hmode]
  | output file =>
    rcases perform_output hmode with ⟨_, hdisk, _⟩ | ⟨b, _, hdisk, hresult⟩
    · rw [hdisk]
    · rw [hdisk]
      cases hwritten : (b.writeTo file d).2.result with
      | error fault => exact Bundle.file?_writeTo_of_error hwritten
      | ok _ => simp [hresult, hwritten, Except.mapError, Except.map] at h

/-- **A run that is asked to write its bundle** does no more than that. -/
theorem exists_of_perform_output (hmode : job.mode = .output file)
    (h : (job.perform env d).2.result = .ok printed) :
    printed = "" ∧ ∃ text loc, job.bundleText? env d = some text ∧
      (job.perform env d).1.locate file = .ok loc ∧
      (job.perform env d).1.file? = Function.update d.file? loc (some text.toUTF8) := by
  rcases perform_output hmode with ⟨e, _, hresult⟩ | ⟨b, htext, hdisk, hresult⟩
  · exact nomatch hresult.symm.trans h
  · rw [hresult] at h
    cases hwritten : (b.writeTo file d).2.result with
    | error fault => simp [hwritten, Except.mapError, Except.map] at h
    | ok _ =>
      obtain ⟨loc, hloc, hfile⟩ := Bundle.exists_of_writeTo_eq_ok hwritten
      rw [hwritten] at h
      refine ⟨(Except.ok.inj h).symm, b.source, loc, htext, ?_, ?_⟩
      · rw [hdisk, hloc]
      · rw [hdisk, hfile]

end Job

/-! ## All that a call does -/

namespace Outcome

theorem disk_ofJob (job : Job) (env : Environment) (d : Disk) :
    (ofJob job env d).disk = (job.perform env d).1 := by
  unfold ofJob
  dsimp only
  split <;> rfl

/-- The exit code and the standard output say whether a run succeeds and what it prints. -/
theorem ofJob_cases (job : Job) (env : Environment) (d : Disk) :
    (∃ e, (job.perform env d).2.result = .error e ∧
        (ofJob job env d).code = 1 ∧ (ofJob job env d).stdout = "") ∨
      ((job.perform env d).2.result = .ok (ofJob job env d).stdout ∧
        (ofJob job env d).code = 0) := by
  unfold ofJob
  dsimp only
  split
  · next printed h => exact .inr ⟨h, rfl⟩
  · next e h => exact .inl ⟨e, h, rfl, rfl⟩

/-- The file of a run that was asked to write its bundle. -/
theorem exists_of_output (hmode : job.mode = .output file) (hcode : (ofJob job env d).code = 0) :
    (ofJob job env d).stdout = "" ∧ ∃ text loc, job.bundleText? env d = some text ∧
      (ofJob job env d).disk.locate file = .ok loc ∧
      (ofJob job env d).disk.file? = Function.update d.file? loc (some text.toUTF8) := by
  rcases ofJob_cases job env d with ⟨_, _, hfailed, _⟩ | ⟨hprinted, _⟩
  · omega
  · rw [disk_ofJob]
    exact Job.exists_of_perform_output hmode hprinted

/-- **A failed run leaves no output**: it prints nothing to the standard output, and no file is new or
has another content.  A run that succeeds leaves what it was asked for, the one file with the text of
the bundle or this text on the standard output, and no other trace on the disk. -/
theorem effects_of_run (args : List String) (env : Environment) (d : Disk) (job : Job)
    (h : Request.ofArguments args = .run job) :
    ((ofArguments args env d).code = 1 ∧ (ofArguments args env d).stdout = "" ∧
        (ofArguments args env d).disk.file? = d.file?) ∨
      ((ofArguments args env d).code = 0 ∧
        match job.mode with
        | .output file =>
          (ofArguments args env d).stdout = "" ∧
            ∃ text loc, job.bundleText? env d = some text ∧
              (ofArguments args env d).disk.locate file = .ok loc ∧
              (ofArguments args env d).disk.file? =
                Function.update d.file? loc (some text.toUTF8)
        | .stdout =>
          (ofArguments args env d).disk = d ∧
            ∃ text, job.bundleText? env d = some text ∧
              (ofArguments args env d).stdout = text ++ "\n" ∧
              ∀ file, (ofJob { job with mode := .output file } env d).code = 0 →
                ∃ loc, (ofJob { job with mode := .output file } env d).disk.locate file = .ok loc ∧
                  (ofJob { job with mode := .output file } env d).disk.file? loc =
                    some text.toUTF8
        | .list => (ofArguments args env d).disk = d) := by
  have hjob : ofArguments args env d = ofJob job env d := by rw [ofArguments, h]
  rw [hjob]
  rcases ofJob_cases job env d with ⟨e, he, hcode, hstdout⟩ | ⟨hprinted, hcode⟩
  · refine .inl ⟨hcode, hstdout, ?_⟩
    rw [disk_ofJob, Job.file?_perform_of_error he]
  · refine .inr ⟨hcode, ?_⟩
    split
    · next file hmode => exact exists_of_output hmode hcode
    · next hmode =>
      have hsame : { job with mode := .stdout } = job := by rw [← hmode]
      have hdisk : (ofJob job env d).disk = d := by rw [disk_ofJob, Job.perform, hmode]
      rw [← hsame] at hprinted
      obtain ⟨s, hs, run, hrun, htext⟩ := Job.stdout_eq_ok_iff.1 hprinted
      rw [hsame] at htext
      have hmade : job.bundleText? env d = some run.bundle.source :=
        Job.bundleText?_eq_some_iff.2 ⟨s, hs, run, hrun, rfl⟩
      refine ⟨hdisk, run.bundle.source, hmade, htext.symm, fun file hcode' => ?_⟩
      obtain ⟨_, text, loc, hmade', hloc, hfile⟩ := exists_of_output rfl hcode'
      obtain rfl : run.bundle.source = text := Option.some.inj (hmade.symm.trans hmade')
      exact ⟨loc, hloc, by rw [hfile, Function.update_self]⟩
    · next hmode => rw [disk_ofJob, Job.perform, hmode]

/-- An entry that is missing from an empty directory. -/
theorem effects_of_missing_entry :
    (ofArguments ["--entry", "gone.lua", "--output", "bundle.lua"] {} (.empty ["w"])).code = 1 ∧
      (ofArguments ["--entry", "gone.lua", "--output", "bundle.lua"] {} (.empty ["w"])).stdout =
        "" ∧
      (ofArguments ["--entry", "gone.lua", "--output", "bundle.lua"] {} (.empty ["w"])).disk.file? =
        (Disk.empty ["w"]).file? := by
  have hcode : (ofArguments ["--entry", "gone.lua", "--output", "bundle.lua"] {}
      (.empty ["w"])).code ≠ 0 := by decide +kernel
  rcases effects_of_run ["--entry", "gone.lua", "--output", "bundle.lua"] {} (.empty ["w"])
    { entry := ⟨"gone.lua"⟩, mode := .output ⟨"bundle.lua"⟩ } (by decide +kernel) with
    h | ⟨h, _⟩
  · exact h
  · exact absurd h hcode

end Outcome

end LuaBundle.CommandLine
