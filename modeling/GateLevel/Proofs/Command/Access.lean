import GateLevel.Proofs.Command.Storage

/-! What a request finds in the files before it acts: its settings and its netlist. Looking for them
changes nothing. -/

namespace GateLevel.Command

namespace FileSystem

variable {σ Handle : Type} (system : FileSystem (StateM σ) Handle)

def Holds (state : σ) (file text : String) : Prop :=
  ∃ handle, (system.openFile file state).1 = .ok handle ∧
    (system.readAll handle state).1 = ⟨text.toUTF8, none⟩

def Describes (state : σ) (circuit : String) (netlist : Netlist) : Prop :=
  ∃ source, system.Holds state circuit source ∧ Source.readNetlist source = .ok netlist

def States (readers : Readers) (state : σ) (file : String) (said : Settings.Partial) : Prop :=
  ∃ document, system.Holds state file document ∧ readers.settings? document = some said

/-- What is said by the settings file that is named, or else by the standard one. Where there is
neither, nothing is said. -/
inductive Configures (readers : Readers) (state : σ) : Option String → Settings.Partial → Prop
  | named {file said} (states : system.States readers state file said) :
      Configures readers state (some file) said
  | found {said} (present : (system.isFile standardSettingsFile state).1 = true)
      (states : system.States readers state standardSettingsFile said) :
      Configures readers state none said
  | silent (absent : (system.isFile standardSettingsFile state).1 = false) :
      Configures readers state none ⟨none, none⟩

variable {system} {readers : Readers} {state : σ} {said : Settings.Partial}

theorem configures_some_iff {file : String} :
    system.Configures readers state (some file) said ↔ system.States readers state file said := by
  constructor
  · rintro ⟨states⟩
    exact states
  · exact .named

theorem configures_none_iff (present : (system.isFile standardSettingsFile state).1 = true) :
    system.Configures readers state none said ↔
      system.States readers state standardSettingsFile said := by
  constructor
  · intro configures
    cases configures with
    | found _ states => exact states
    | silent absent => simp [present] at absent
  · exact .found present

end FileSystem

def ends {σ α : Type} (access : ExceptT Failure (StateM σ) α) (state : σ) : Except Failure α × σ :=
  access.run.run state

section

variable {σ α β : Type} (state : σ)

theorem ends_bind (access : ExceptT Failure (StateM σ) α)
    (next : α → ExceptT Failure (StateM σ) β) :
    ends (access >>= next) state =
      match ends access state with
      | (.ok answer, later) => ends (next answer) later
      | (.error cause, later) => (.error cause, later) := by
  unfold ends
  rw [ExceptT.run_bind, StateT.run_bind]
  rcases access.run.run state with ⟨_ | _, later⟩ <;> rfl

theorem ends_lift (access : StateM σ α) :
    ends (liftM access : ExceptT Failure (StateM σ) α) state =
      (.ok (access state).1, (access state).2) := rfl

end

/-- An access that only looks. It ends with the one answer that is right, or fails if none is. -/
inductive Looks {σ α : Type} (access : ExceptT Failure (StateM σ) α) (state : σ)
    (right : α → Prop) : Prop
  | finds (answer : α) (only : ∀ other, right other ↔ other = answer)
      (ended : ends access state = (.ok answer, state))
  | fails (cause : Failure) (none : ∀ answer, ¬ right answer)
      (ended : ends access state = (.error cause, state))

namespace Looks

variable {σ α β : Type} {access : ExceptT Failure (StateM σ) α} {state : σ} {right : α → Prop}

theorem of_ends {other : ExceptT Failure (StateM σ) α} (looks : Looks access state right)
    (same : ends other state = ends access state) : Looks other state right := by
  cases looks with
  | finds answer only ended => exact .finds answer only (same.trans ended)
  | fails cause none ended => exact .fails cause none (same.trans ended)

theorem of_right (looks : Looks access state right) {answer : α} (holds : right answer) :
    ends access state = (.ok answer, state) := by
  cases looks with
  | finds _ only ended => rw [ended, (only answer).mp holds]
  | fails _ none _ => exact absurd holds (none answer)

theorem of_none (looks : Looks access state right) (none : ¬ ∃ answer, right answer) :
    ∃ cause, ends access state = (.error cause, state) := by
  cases looks with
  | finds answer only _ => exact absurd ⟨answer, (only answer).mpr rfl⟩ none
  | fails cause _ ended => exact ⟨cause, ended⟩

theorem congr {other : α → Prop} (looks : Looks access state right)
    (same : ∀ answer, other answer ↔ right answer) : Looks access state other := by
  cases looks with
  | finds answer only ended =>
      exact .finds answer (fun answer => (same answer).trans (only answer)) ended
  | fails cause none ended =>
      exact .fails cause (fun answer holds => none answer ((same answer).mp holds)) ended

theorem bind {next : α → ExceptT Failure (StateM σ) β} {follows : α → β → Prop}
    (first : Looks access state right)
    (second : ∀ answer, right answer → Looks (next answer) state (follows answer)) :
    Looks (access >>= next) state fun final => ∃ answer, right answer ∧ follows answer final := by
  cases first with
  | finds answer only ended =>
      cases second answer ((only answer).mpr rfl) with
      | finds final onlyNext endedNext =>
          refine .finds final (fun final => ?_) (by rw [ends_bind, ended]; exact endedNext)
          simp only [only, exists_eq_left, onlyNext]
      | fails cause none endedNext =>
          refine .fails cause (fun final => ?_) (by rw [ends_bind, ended]; exact endedNext)
          simpa only [only, exists_eq_left] using none final
  | fails cause none ended =>
      refine .fails cause (fun final => ?_) (by rw [ends_bind, ended])
      rintro ⟨answer, holds, _⟩
      exact none answer holds

end Looks

theorem fromUTF8?_eq_some_iff {bytes : ByteArray} {text : String} :
    String.fromUTF8? bytes = some text ↔ bytes = text.toUTF8 := by
  constructor
  · intro decoded
    unfold String.fromUTF8? at decoded
    split at decoded
    · exact congrArg String.toUTF8 (Option.some.inj decoded)
    · cases decoded
  · rintro rfl
    exact dif_pos text.isValidUTF8

namespace FileSystem.Lawful

variable {σ Handle : Type} {system : FileSystem (StateM σ) Handle} {catalog : Catalog σ Handle}
  (lawful : system.Lawful catalog) (readers : Readers) (state : σ)

include lawful

theorem ends_openFile (file : String) :
    ends (liftM (system.openFile file)) state = (.ok (system.openFile file state).1, state) := by
  rw [ends_lift, lawful.openFile_keeps]

theorem ends_readAll (handle : Handle) :
    ends (liftM (system.readAll handle)) state = (.ok (system.readAll handle state).1, state) := by
  rw [ends_lift, lawful.readAll_keeps]

theorem looks_readText (file : String) :
    Looks (readText system file) state (system.Holds state file) := by
  cases opened : (system.openFile file state).1 with
  | error cause =>
      refine .fails (.unreadable file cause) ?_ ?_
      · simp [Holds, opened]
      · rw [readText, ends_bind, lawful.ends_openFile, opened]
        rfl
  | ok handle =>
      have holds (text : String) : system.Holds state file text ↔
          (system.readAll handle state).1 = ⟨text.toUTF8, none⟩ := by
        simp [Holds, opened]
      cases read : (system.readAll handle state).1 with
      | mk bytes fault =>
          simp only [read, Reading.mk.injEq] at holds
          cases fault with
          | some cause =>
              refine .fails (.unreadable file cause) (by simp [holds]) ?_
              rw [readText, ends_bind, lawful.ends_openFile, opened]
              simp only [ends_bind, lawful.ends_readAll, read]
              rfl
          | none =>
              cases decoded : String.fromUTF8? bytes with
              | none =>
                  refine .fails (.unreadable file .undecodable) (fun text held => ?_) ?_
                  · have same := fromUTF8?_eq_some_iff.mpr ((holds text).mp held).1
                    simp [same] at decoded
                  · rw [readText, ends_bind, lawful.ends_openFile, opened]
                    simp only [ends_bind, lawful.ends_readAll, read, decoded]
                    rfl
              | some text =>
                  refine .finds text (fun other => ?_) ?_
                  · rw [holds, and_iff_left rfl, ← fromUTF8?_eq_some_iff, decoded,
                      Option.some.injEq]
                    exact eq_comm
                  · rw [readText, ends_bind, lawful.ends_openFile, opened]
                    simp only [ends_bind, lawful.ends_readAll, read, decoded]
                    rfl

theorem looks_loadNetlist (circuit : String) :
    Looks (loadNetlist system circuit) state (system.Describes state circuit) := by
  refine (lawful.looks_readText state circuit).bind fun source _ => ?_
  cases read : Source.readNetlist source with
  | error cause => exact .fails (.invalidCircuit circuit cause) (by simp) rfl
  | ok netlist => exact .finds netlist (by simp [eq_comm]) rfl

theorem looks_readSettings (file : String) :
    Looks (readSettings system readers file) state fun settings =>
      ∃ said, system.States readers state file said ∧ settings = said.complete := by
  have looks : Looks (readSettings system readers file) state fun settings =>
      ∃ document, system.Holds state file document ∧
        ∃ said, readers.settings? document = some said ∧ settings = said.complete := by
    refine (lawful.looks_readText state file).bind fun document _ => ?_
    cases read : readers.settings? document with
    | none => exact .fails (.invalidSettings file) (by simp) rfl
    | some said => exact .finds said.complete (by simp) rfl
  refine looks.congr fun settings => ?_
  constructor
  · rintro ⟨said, ⟨document, held, states⟩, same⟩
    exact ⟨document, held, said, states, same⟩
  · rintro ⟨document, held, said, states, same⟩
    exact ⟨said, ⟨document, held, states⟩, same⟩

theorem looks_loadSettings (settingsFile : Option String) :
    Looks (loadSettings system readers settingsFile) state fun settings =>
      ∃ said, system.Configures readers state settingsFile said ∧ settings = said.complete := by
  cases settingsFile with
  | some file =>
      simp only [configures_some_iff]
      exact lawful.looks_readSettings readers state file
  | none =>
      have begins : ends (liftM (system.isFile standardSettingsFile)) state =
          (.ok (system.isFile standardSettingsFile state).1, state) := by
        rw [ends_lift, lawful.isFile_keeps]
      cases present : (system.isFile standardSettingsFile state).1 with
      | true =>
          simp only [configures_none_iff present]
          refine (lawful.looks_readSettings readers state standardSettingsFile).of_ends ?_
          rw [loadSettings, ends_bind, begins, present]
          rfl
      | false =>
          refine .finds .standard (fun settings => ?_) ?_
          · constructor
            · rintro ⟨said, configured, same⟩
              cases configured with
              | found there _ => simp [present] at there
              | silent _ => exact same
            · rintro rfl
              exact ⟨⟨none, none⟩, .silent present, rfl⟩
          · rw [loadSettings, ends_bind, begins, present]
            rfl

end FileSystem.Lawful

end GateLevel.Command
