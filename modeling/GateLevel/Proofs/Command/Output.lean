import GateLevel.Proofs.Command.Access
import GateLevel.Proofs.Command.Memory
import GateLevel.Proofs.Stream

/-! What a simulation leaves in the files. The output file is touched only when there is something
to run, holds then what the simulation writes, and is the only file that changes. -/

namespace GateLevel

namespace Simulator

def Blocked (width : Nat) (simulator : Simulator) (line : StimulusLine) : Prop :=
  ∀ text, line = .text text → ¬ simulator.Takes width text

/-- The simulator takes all lines, or those before the first that blocks it. -/
theorem takesAll_or_blocked (width : Nat) (simulator : Simulator) (lines : List StimulusLine) :
    (∃ texts : List (List Char), lines = texts.map .text ∧ simulator.TakesAll width texts) ∨
      ∃ (before : List (List Char)) (line : StimulusLine) (rest : List StimulusLine),
        lines = before.map .text ++ line :: rest ∧ simulator.TakesAll width before ∧
          (simulator.follow before).Blocked width line := by
  induction lines generalizing simulator with
  | nil => exact Or.inl ⟨[], rfl, .nil⟩
  | cons line lines ih =>
      by_cases blocked : simulator.Blocked width line
      · exact Or.inr ⟨[], line, lines, rfl, .nil, blocked⟩
      · simp only [Blocked, not_forall, not_not] at blocked
        obtain ⟨text, rfl, takes⟩ := blocked
        rcases ih (simulator.follow [text]) with
          ⟨texts, rfl, all⟩ | ⟨before, next, rest, rfl, all, blocked⟩
        · exact Or.inl ⟨text :: texts, rfl, TakesAll.cons_iff.mpr ⟨takes, all⟩⟩
        · exact Or.inr
            ⟨text :: before, next, rest, rfl, TakesAll.cons_iff.mpr ⟨takes, all⟩, blocked⟩

end Simulator

namespace Simulation

theorem run_of_blocked {width : Nat} {simulator : Simulator} {line : StimulusLine}
    (blocked : simulator.Blocked width line) (number : Nat) (rest : List StimulusLine) :
    (∃ error, (run width number (line :: rest) none simulator).result = .error error) ∧
      (run width number (line :: rest) none simulator).written = [] := by
  cases line with
  | undecodable => exact ⟨⟨_, rfl⟩, rfl⟩
  | text text =>
      obtain ⟨error, refuses⟩ := Simulator.exists_refuses number (blocked text rfl)
      obtain ⟨result, written⟩ := run_of_refuses refuses rest
      exact ⟨⟨error, result⟩, written⟩

end Simulation

namespace Netlist

/-- A simulation that went over all lines, or failed at the first one that blocked it. What it wrote
are the outputs after each line before. -/
inductive Accounts (netlist : Netlist) : List StimulusLine → Simulation → Prop
  | whole {texts : List (List Char)} {simulation : Simulation}
      (takes : netlist.simulator.TakesAll netlist.inputs.length texts)
      (result : simulation.result = .ok texts.length)
      (written : simulation.written = netlist.simulator.transcript texts) :
      Accounts netlist (texts.map .text) simulation
  | part {before : List (List Char)} {line : StimulusLine} {rest : List StimulusLine}
      {simulation : Simulation} {error : SimulationError}
      (takes : netlist.simulator.TakesAll netlist.inputs.length before)
      (blocked : (netlist.simulator.follow before).Blocked netlist.inputs.length line)
      (result : simulation.result = .error error)
      (written : simulation.written = netlist.simulator.transcript before) :
      Accounts netlist (before.map .text ++ line :: rest) simulation

theorem accounts_simulate (netlist : Netlist) (lines : List StimulusLine) :
    netlist.Accounts lines (netlist.simulate lines none) := by
  rcases netlist.simulator.takesAll_or_blocked netlist.inputs.length lines with
    ⟨texts, rfl, takes⟩ | ⟨before, line, rest, rfl, takes, blocked⟩
  · obtain ⟨result, written⟩ := simulate_of_takesAll takes []
    rw [List.append_nil] at result written
    exact .whole takes result (written.trans (List.append_nil _))
  · obtain ⟨result, written⟩ := simulate_of_takesAll takes (line :: rest)
    obtain ⟨⟨error, failed⟩, silent⟩ :=
      Simulation.run_of_blocked blocked (before.length + 1) rest
    rw [silent, List.append_nil] at written
    exact .part takes blocked (result.trans failed) written

end Netlist

namespace Command

namespace FileSystem.Lawful

variable {σ Handle : Type} {system : FileSystem (StateM σ) Handle} {catalog : Catalog σ Handle}
  (lawful : system.Lawful catalog) {readers : Readers} {state : σ} {netlist : Netlist}
  {vectors output : String} {source target : Handle}

theorem ends_createTarget :
    ends (createTarget system (some output)) state =
      match (system.createFile output state).1 with
      | .error cause => (.error (.uncreated output cause), (system.createFile output state).2)
      | .ok handle => (.ok (some handle), (system.createFile output state).2) := by
  rw [createTarget, ends_bind, ends_lift]
  cases (system.createFile output state).1 <;> rfl

include lawful

theorem ends_simulate_of_unopened {cause : FileError}
    (unopened : (system.openFile vectors state).1 = .error cause) :
    ends (simulate system netlist vectors (some output)) state =
      (.error (.unopened vectors cause), state) := by
  rw [simulate, ends_bind, lawful.ends_openFile, unopened]
  rfl

theorem ends_simulate_of_uncreated {cause : FileError}
    (opened : (system.openFile vectors state).1 = .ok source)
    (refused : (system.createFile output state).1 = .error cause) :
    ends (simulate system netlist vectors (some output)) state =
      (.error (.uncreated output cause), state) := by
  rw [simulate, ends_bind, lawful.ends_openFile, opened]
  simp only [ends_bind, ends_createTarget, refused, lawful.createFile_keeps refused]

theorem ends_simulate (opened : (system.openFile vectors state).1 = .ok source)
    (created : (system.createFile output state).1 = .ok target)
    (apart : ¬ catalog.SameFile state vectors output) :
    let reading := (system.readAll source state).1
    let simulation := netlist.simulate reading.lines none
    ends (simulate system netlist vectors (some output)) state =
      (match simulation.result, reading.fault with
        | .error cause, _ => .error (.simulation vectors cause)
        | .ok _, some cause => .error (.interrupted vectors cause)
        | .ok _, none => .ok (),
      (system.writeAll target (String.ofList simulation.written).toUTF8
        (system.createFile output state).2).2) := by
  intro reading simulation
  rw [simulate, ends_bind, lawful.ends_openFile, opened]
  simp only [ends_bind, ends_createTarget, created, lawful.ends_readAll,
    lawful.readAll_of_created opened created apart, deliver, ends_lift]
  cases simulation.result with
  | error cause => rfl
  | ok ticks => cases reading.fault <;> rfl

section

variable {settingsFile vectorsFlag outputFlag : Option String} {said : Settings.Partial}
  {circuit : String}
  (configured : system.Configures readers state settingsFile said)
  (directed : outputFlag.or said.output = some output)
  (chosen : (vectorsFlag.or said.vectors).getD Settings.standard.vectors = vectors)

include configured directed chosen

theorem ends_perform :
    ends (perform system readers settingsFile (.simulate circuit vectorsFlag outputFlag)) state =
      ends (loadNetlist system circuit >>= fun netlist =>
        simulate system netlist vectors (some output)) state := by
  have settled := (lawful.looks_loadSettings readers state settingsFile).of_right
    ⟨said, configured, rfl⟩
  have layered : vectorsFlag.getD (said.vectors.getD Settings.standard.vectors) = vectors := by
    rw [← chosen]
    cases vectorsFlag <;> rfl
  rw [perform, ends_bind, settled]
  simp only [Settings.Partial.complete, Option.orElse_eq_orElse, Option.orElse_eq_or, layered,
    directed]

theorem ends_perform_of_describes (described : system.Describes state circuit netlist) :
    ends (perform system readers settingsFile (.simulate circuit vectorsFlag outputFlag)) state =
      ends (simulate system netlist vectors (some output)) state := by
  rw [lawful.ends_perform configured directed chosen, ends_bind,
    (lawful.looks_loadNetlist state circuit).of_right described]

theorem exists_refusal (refused : (¬ ∃ netlist, system.Describes state circuit netlist) ∨
      (∃ cause, (system.openFile vectors state).1 = .error cause) ∨
      ∃ cause, (system.createFile output state).1 = .error cause) :
    ∃ cause, ends (perform system readers settingsFile
      (.simulate circuit vectorsFlag outputFlag)) state = (.error cause, state) := by
  by_cases described : ∃ netlist, system.Describes state circuit netlist
  · obtain ⟨netlist, described⟩ := described
    rw [lawful.ends_perform_of_describes configured directed chosen described]
    cases opened : (system.openFile vectors state).1 with
    | error cause => exact ⟨_, lawful.ends_simulate_of_unopened opened⟩
    | ok source =>
        rcases refused with none | ⟨cause, unopened⟩ | ⟨cause, uncreated⟩
        · exact absurd ⟨netlist, described⟩ none
        · simp [opened] at unopened
        · exact ⟨_, lawful.ends_simulate_of_uncreated opened uncreated⟩
  · obtain ⟨cause, ended⟩ := (lawful.looks_loadNetlist state circuit).of_none described
    refine ⟨cause, ?_⟩
    rw [lawful.ends_perform configured directed chosen, ends_bind, ended]

end

end FileSystem.Lawful

theorem run_of_ends {σ Handle : Type} {system : FileSystem (StateM σ) Handle} {readers : Readers}
    {arguments : List String} {settingsFile : Option String} {action : Action}
    {answer : Except Failure Unit} {state later : σ}
    (asked : readers.request? arguments = some (.run settingsFile action))
    (ended : ends (perform system readers settingsFile action) state = (answer, later)) :
    (run system readers arguments state).2 = later ∧
      ((run system readers arguments state).1.code = 0 ↔ answer = .ok ()) ∧
      ((run system readers arguments state).1.code = 1 ↔ ∃ cause, answer = .error cause) := by
  change (perform system readers settingsFile action).run.run state = (answer, later) at ended
  cases answer with
  | error cause =>
      have exits : run system readers arguments state = (.failure cause, later) := by
        rw [run, asked]
        change ((perform system readers settingsFile action).run >>= _).run state = _
        rw [StateT.run_bind, ended]
        rfl
      simp [exits, Exit.code]
  | ok done =>
      have exits : run system readers arguments state = (.success, later) := by
        rw [run, asked]
        change ((perform system readers settingsFile action).run >>= _).run state = _
        rw [StateT.run_bind, ended]
        rfl
      simp [exits, Exit.code]

/-- Whatever arguments and settings files are taken to say: a simulation is refused, and nothing is
changed, where there is no circuit, the vectors cannot be opened or the output cannot be created.
Otherwise the output file holds what the simulation of the vectors writes, as far as it comes, and
all else is as before. -/
theorem output_of_simulation {σ Handle : Type} {system : FileSystem (StateM σ) Handle}
    {catalog : Catalog σ Handle} (lawful : system.Lawful catalog)
    (readers : Readers) (arguments : List String) (state : σ)
    {settingsFile vectorsFlag outputFlag : Option String} {said : Settings.Partial}
    {circuit output : String}
    (asked : readers.request? arguments =
      some (.run settingsFile (.simulate circuit vectorsFlag outputFlag)))
    (configured : system.Configures readers state settingsFile said)
    (directed : outputFlag.or said.output = some output) :
    let vectors := (vectorsFlag.or said.vectors).getD Settings.standard.vectors
    let exit := (run system readers arguments state).1
    let after := (run system readers arguments state).2
    ((¬ ∃ netlist, system.Describes state circuit netlist) ∨
        (∃ cause, (system.openFile vectors state).1 = .error cause) ∨
        (∃ cause, (system.createFile output state).1 = .error cause) →
      exit.code = 1 ∧ after = state) ∧
    ∀ netlist source target, system.Describes state circuit netlist →
      (system.openFile vectors state).1 = .ok source →
      (system.createFile output state).1 = .ok target →
      ¬ catalog.SameFile state vectors output →
      let reading := (system.readAll source state).1
      let simulation := netlist.simulate reading.lines none
      catalog.Delivered state output target (String.ofList simulation.written) after ∧
        netlist.Accounts reading.lines simulation ∧
        (exit.code = 0 ↔ (∃ ticks, simulation.result = .ok ticks) ∧ reading.fault = none) ∧
        (exit.code = 1 ↔ (∃ error, simulation.result = .error error) ∨ reading.fault ≠ none) := by
  intro vectors exit after
  refine ⟨fun refused => ?_, fun netlist source target described opened created apart => ?_⟩
  · obtain ⟨cause, ended⟩ := lawful.exists_refusal configured directed rfl refused
    obtain ⟨left, _, fails⟩ := run_of_ends asked ended
    exact ⟨fails.mpr ⟨cause, rfl⟩, left⟩
  · intro reading simulation
    have chosen : (vectorsFlag.or said.vectors).getD Settings.standard.vectors = vectors := rfl
    have performed := lawful.ends_perform_of_describes configured directed chosen described
    have ended := performed.trans (lawful.ends_simulate opened created apart)
    obtain ⟨left, succeeds, fails⟩ := run_of_ends asked ended
    refine ⟨?_, netlist.accounts_simulate reading.lines, succeeds.trans ?_, fails.trans ?_⟩
    · have same : after = _ := left
      rw [same]
      exact lawful.delivers created _
    · cases simulation.result <;> cases reading.fault <;> simp
    · cases simulation.result <;> cases reading.fault <;> simp

def inverter : String := "module M (\ninput a\noutput y\n);\nassign y = NOT a\nendmodule\n"

def inverterNetlist : Netlist where
  name := "M"
  clocked := false
  inputs := ["a"]
  flipflops := []
  outputs := ["y"]
  assignments := [⟨.output 0, [.signal (.input 0), .gate .not]⟩]

def bench : Session where
  files := .ofList [
    ("gatesim.toml", "[simulate]\noutput = \"out/o.txt\"\n".toUTF8),
    ("m.v", inverter.toUTF8),
    ("in/v.txt", "0\n1\n2\n0\n".toUTF8),
    ("out/o.txt", "old".toUTF8)]
  shown := ""

theorem describes_bench : Session.system.Describes bench "m.v" inverterNetlist :=
  ⟨inverter, ⟨.file ["tmp", "sandbox", "m.v"], by decide +kernel,
    Session.readAll_file (by decide +kernel)⟩, by decide +kernel⟩

theorem configures_bench :
    Session.system.Configures readers bench none ⟨none, some "out/o.txt"⟩ := by
  have held : Session.system.Holds bench standardSettingsFile
      "[simulate]\noutput = \"out/o.txt\"\n" :=
    ⟨.file ["tmp", "sandbox", "gatesim.toml"], by decide +kernel,
      Session.readAll_file (by decide +kernel)⟩
  exact .found (by decide +kernel) ⟨_, held, by decide +kernel⟩

def stopping : List String := ["simulate", "m.v", "--vectors", "in/v.txt"]

def refusing : List String := ["simulate", "m.v", "--vectors", "absent.txt"]

theorem output_of_simulation_stopped :
    readers.request? stopping = some (.run none (.simulate "m.v" (some "in/v.txt") none)) ∧
      readers.request? refusing = some (.run none (.simulate "m.v" (some "absent.txt") none)) ∧
      Session.system.Configures readers bench none ⟨none, some "out/o.txt"⟩ ∧
      Session.system.Describes bench "m.v" inverterNetlist ∧
      ¬ Session.catalog.SameFile bench "in/v.txt" "out/o.txt" ∧
      (runOn bench.files stopping).1.code = 1 ∧
      (runOn bench.files stopping).2.files.contents? ["tmp", "sandbox", "out", "o.txt"] =
        some "1\n0\n".toUTF8 ∧
      (runOn bench.files stopping).2.files.contents? ["tmp", "sandbox", "in", "v.txt"] =
        some "0\n1\n2\n0\n".toUTF8 ∧
      (runOn bench.files refusing).1.code = 1 ∧ (runOn bench.files refusing).2 = bench := by
  have askedStopping : readers.request? stopping =
      some (.run none (.simulate "m.v" (some "in/v.txt") none)) := by
    decide +kernel
  have askedRefusing : readers.request? refusing =
      some (.run none (.simulate "m.v" (some "absent.txt") none)) := by
    decide +kernel
  have vectors : bench.files.fileAt? "in/v.txt" = some ["tmp", "sandbox", "in", "v.txt"] := by
    decide +kernel
  have output : bench.files.fileAt? "out/o.txt" = some ["tmp", "sandbox", "out", "o.txt"] := by
    decide +kernel
  have apart : ¬ Session.catalog.SameFile bench "in/v.txt" "out/o.txt" := by
    rintro ⟨path, first, second⟩
    have same := (vectors.symm.trans first).trans (output.symm.trans second).symm
    exact absurd same (by decide)
  obtain ⟨_, simulates⟩ := output_of_simulation Session.lawful_system readers stopping bench
    askedStopping configures_bench rfl
  obtain ⟨refuses, _⟩ := output_of_simulation Session.lawful_system readers refusing bench
    askedRefusing configures_bench rfl
  simp only [Option.some_or, Option.getD_some] at simulates refuses
  obtain ⟨delivered, _, _, failed⟩ := simulates inverterNetlist
    (.file ["tmp", "sandbox", "in", "v.txt"]) (.file ["tmp", "sandbox", "out", "o.txt"])
    describes_bench (by decide +kernel) (by decide +kernel) apart
  have held : bench.files.contents? ["tmp", "sandbox", "in", "v.txt"] =
      some "0\n1\n2\n0\n".toUTF8 := by
    decide +kernel
  have reading := Session.readAll_file held
  have written : String.ofList (inverterNetlist.simulate
      (Reading.lines ⟨"0\n1\n2\n0\n".toUTF8, none⟩) none).written = "1\n0\n" := by
    decide +kernel
  have result : (inverterNetlist.simulate
      (Reading.lines ⟨"0\n1\n2\n0\n".toUTF8, none⟩) none).result =
        .error (.invalidVector 3 (.invalidBit '2')) := by
    decide +kernel
  rw [reading, written] at delivered
  rw [reading] at failed
  have filled := delivered.holds ["tmp", "sandbox", "out", "o.txt"] rfl
  have kept := delivered.others ["tmp", "sandbox", "in", "v.txt"]
    fun same => absurd (Option.some.inj same) (by decide)
  rw [Session.held_catalog] at filled
  rw [Session.held_catalog, Session.held_catalog, held] at kept
  have unopened : (Session.system.openFile "absent.txt" bench).1 = .error .notFound := by
    decide +kernel
  obtain ⟨code, untouched⟩ := refuses (Or.inr (Or.inl ⟨_, unopened⟩))
  have ran (arguments : List String) :
      runOn bench.files arguments = run Session.system readers arguments bench := rfl
  rw [ran, ran]
  exact ⟨askedStopping, askedRefusing, configures_bench, describes_bench, apart,
    failed.mpr (Or.inl ⟨_, result⟩), filled, kept, code, untouched⟩

def workshop : Files where
  entries := [(["home", "m.v"], inverter.toUTF8), (["home", "v.txt"], "0\n1\n".toUTF8)]
  directories := [⟨["sys"], some (.other 13 "Permission denied")⟩, ⟨["dev"], none⟩]
  sinks := [["dev", "null"]]
  working := ["home"]

def storing (output : String) : List String :=
  ["simulate", "m.v", "--vectors", "v.txt", "--output", output]

/-- Nothing but the output's name is in the way of a simulation that succeeds: the name is in no
directory, or in one where nothing can be made, is another one for the vectors, or that of a file
that forgets. -/
theorem simulation_without_output :
    Session.system.Configures readers ⟨workshop, ""⟩ none ⟨none, none⟩ ∧
      Session.system.Describes ⟨workshop, ""⟩ "m.v" inverterNetlist ∧
      workshop.read "v.txt" = .ok "0\n1\n".toUTF8 ∧
      (inverterNetlist.simulate (StimulusLine.ofBytes "0\n1\n".toUTF8.toList) none).result =
        .ok 2 ∧
      (inverterNetlist.simulate (StimulusLine.ofBytes "0\n1\n".toUTF8.toList) none).written =
        "1\n0\n".toList ∧
      (∀ output ∈ ["new/o.txt", "/sys/o.txt", "./v.txt", "/home/v.txt", "/dev/null"],
        output ≠ "v.txt" ∧
        readers.request? (storing output) =
          some (.run none (.simulate "m.v" (some "v.txt") (some output))) ∧
        (runOn workshop (storing output)).2.files.read output ≠ .ok "1\n0\n".toUTF8) ∧
      ["new/o.txt", "/sys/o.txt", "./v.txt", "/home/v.txt", "/dev/null"].map
        (fun output => (runOn workshop (storing output)).1.code) = [1, 1, 0, 0, 0] := by
  have configured : Session.system.Configures readers ⟨workshop, ""⟩ none ⟨none, none⟩ :=
    .silent (by decide +kernel)
  have described : Session.system.Describes ⟨workshop, ""⟩ "m.v" inverterNetlist :=
    ⟨inverter, ⟨.file ["home", "m.v"], by decide +kernel,
      Session.readAll_file (by decide +kernel)⟩, by decide +kernel⟩
  refine ⟨configured, described, ?_⟩
  decide +kernel

end Command

end GateLevel
