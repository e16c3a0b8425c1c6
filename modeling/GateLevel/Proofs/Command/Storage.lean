import GateLevel.Command.Program

/-! What is kept of files, whatever the file system: where names lead, and what the files hold.
Creating a file and writing to it delivers a text there, and changes no other file. -/

namespace GateLevel.Command

/-- The stored files. A name leads to none where nothing is stored, and neither does that of a
directory or of a device. A handle of these is of no stored file. -/
structure Catalog (σ Handle : Type) where
  File : Type
  find : σ → String → Option File
  held : σ → File → Option ByteArray
  of : Handle → Option File

namespace Catalog

variable {σ Handle : Type} (catalog : Catalog σ Handle)

def SameFile (state : σ) (first second : String) : Prop :=
  ∃ file, catalog.find state first = some file ∧ catalog.find state second = some file

structure Created (before : σ) (name : String) (handle : Handle) (after : σ) : Prop where
  leads : catalog.find after name = catalog.of handle
  empty : ∀ file, catalog.of handle = some file → catalog.held after file = some .empty
  own : ∀ file, catalog.of handle = some file →
    catalog.find before name = some file ∨ catalog.held before file = none
  others : ∀ file, catalog.of handle ≠ some file →
    catalog.held after file = catalog.held before file
  names : ∀ other file, catalog.find before other = some file → catalog.find after other = some file

structure Written (before : σ) (handle : Handle) (contents : ByteArray) (after : σ) : Prop where
  names : ∀ name, catalog.find after name = catalog.find before name
  filled : ∀ file, catalog.of handle = some file → catalog.held after file = some contents
  others : ∀ file, catalog.of handle ≠ some file →
    catalog.held after file = catalog.held before file

/-- The text has been put at the name, unless the handle is of no stored file. No other file has
changed, and all names lead where they led. -/
structure Delivered (before : σ) (name : String) (handle : Handle) (text : String) (after : σ) :
    Prop where
  leads : catalog.find after name = catalog.of handle
  holds : ∀ file, catalog.of handle = some file → catalog.held after file = some text.toUTF8
  others : ∀ file, catalog.of handle ≠ some file →
    catalog.held after file = catalog.held before file
  names : ∀ other file, catalog.find before other = some file → catalog.find after other = some file

end Catalog

namespace FileSystem

/-- Looking changes nothing. What a handle reads is up to its own file alone. A file that is created
is the one that the name led to, or one that was not there, and it accepts what is written. -/
structure Lawful {σ Handle : Type} (system : FileSystem (StateM σ) Handle)
    (catalog : Catalog σ Handle) : Prop where
  held_of_find : ∀ {state name file}, catalog.find state name = some file →
    (catalog.held state file).isSome
  isFile_keeps : ∀ name state, (system.isFile name state).2 = state
  openFile_keeps : ∀ name state, (system.openFile name state).2 = state
  readAll_keeps : ∀ handle state, (system.readAll handle state).2 = state
  of_openFile : ∀ {name state handle}, (system.openFile name state).1 = .ok handle →
    catalog.of handle = catalog.find state name
  readAll_congr : ∀ {handle before after},
    (∀ file, catalog.of handle = some file →
      catalog.held after file = catalog.held before file) →
    (system.readAll handle after).1 = (system.readAll handle before).1
  createFile_keeps : ∀ {name state cause}, (system.createFile name state).1 = .error cause →
    (system.createFile name state).2 = state
  createFile_done : ∀ {name state handle}, (system.createFile name state).1 = .ok handle →
    catalog.Created state name handle (system.createFile name state).2
  writeAll_done : ∀ {name start handle}, (system.createFile name start).1 = .ok handle →
    ∀ contents state,
      (∀ file, catalog.of handle = some file → catalog.held state file = some .empty) →
      catalog.Written state handle contents (system.writeAll handle contents state).2

namespace Lawful

variable {σ Handle : Type} {system : FileSystem (StateM σ) Handle} {catalog : Catalog σ Handle}
  (lawful : system.Lawful catalog) {state : σ} {vectors output : String} {source target : Handle}

include lawful

theorem delivers (created : (system.createFile output state).1 = .ok target) (text : String) :
    catalog.Delivered state output target text
      (system.writeAll target text.toUTF8 (system.createFile output state).2).2 := by
  have made := lawful.createFile_done created
  have written := lawful.writeAll_done created text.toUTF8 _ made.empty
  refine ⟨?_, written.filled, fun file other => ?_, fun other file before => ?_⟩
  · rw [written.names, made.leads]
  · rw [written.others file other, made.others file other]
  · rw [written.names, made.names other file before]

/-- What has been opened before reads as if nothing had been created, unless it is the same file. -/
theorem readAll_of_created (opened : (system.openFile vectors state).1 = .ok source)
    (created : (system.createFile output state).1 = .ok target)
    (apart : ¬ catalog.SameFile state vectors output) :
    (system.readAll source (system.createFile output state).2).1 =
      (system.readAll source state).1 := by
  have made := lawful.createFile_done created
  apply lawful.readAll_congr
  intro file own
  have found : catalog.find state vectors = some file := (lawful.of_openFile opened).symm.trans own
  apply made.others
  intro same
  rcases made.own file same with led | new
  · exact apart ⟨file, found, led⟩
  · have held := lawful.held_of_find found
    simp [new] at held

end Lawful

end FileSystem

end GateLevel.Command
